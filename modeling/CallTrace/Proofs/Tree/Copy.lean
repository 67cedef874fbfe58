import CallTrace.Proofs.Tree.Embedding
import CallTrace.Tree.Copy
import Mathlib.Data.List.GetD
import Mathlib.Data.List.Perm.Subperm

/-! # Copies of a part of a tree

A partial copy knows which nodes it has copied: the copies of the nodes `ids` are its nodes in
their order, no node is copied twice, and copies are linked only as their nodes are
(`CallTree.Partial.Copies`).  It is joined up if moreover every copy is linked to that of the parent
of its node, and the copy of the root is known (`CallTree.Partial.Joined`).

Freezing a joined copy that has the root cannot fail, and gives a tree that is embedded in the tree
it was copied from (`Partial.Joined.exists_finish`). -/

namespace CallTrace.CallTree.Partial
variable {t : CallTree} {p : Partial} {ids : List Nat} {id : Nat}

/-- The nodes of the arena are the copies of the nodes `ids`. -/
structure Copies (t : CallTree) (p : Partial) (ids : List Nat) : Prop where
  nodup : ids.Nodup
  lt : ∀ id ∈ ids, id < t.size
  spans : p.arena.spans = ids.map t.span
  copy?_iff : ∀ id copy, p.copy? id = some copy ↔ ids[copy]? = some id
  ordered : p.arena.Ordered
  link : ∀ copy above, p.arena.parent copy = some above →
    ∃ id parent, ids[copy]? = some id ∧ ids[above]? = some parent ∧ t.parent id = some parent
  size_copies : p.copies.size = t.size

/-- The copy of a node has the copy of its parent as parent. -/
def Attached (t : CallTree) (p : Partial) (id : Nat) : Prop :=
  ∀ copy parent, p.copy? id = some copy → t.parent id = some parent →
    ∃ above, p.arena.parent copy = some above

structure Joined (t : CallTree) (p : Partial) (ids : List Nat) : Prop extends Copies t p ids where
  attached : ∀ id ∈ ids, Attached t p id
  root_eq : p.root = p.copy? t.root

namespace Copies

theorem empty (t : CallTree) : Copies t (.empty t) [] where
  nodup := List.nodup_nil
  lt := by simp
  spans := rfl
  copy?_iff id copy := by
    simp only [copy?, Partial.empty, Array.getElem?_replicate]
    by_cases h : id < t.size <;> simp [h]
  ordered := Arena.ordered_empty
  link := by simp [Partial.empty, Arena.parent]
  size_copies := by simp [Partial.empty]

theorem size_arena (h : Copies t p ids) : p.arena.size = ids.length := by
  rw [← Arena.length_spans, h.spans, List.length_map]

theorem lt_size {copy : Nat} (h : Copies t p ids) (hcopy : p.copy? id = some copy) :
    copy < p.arena.size := by
  rw [h.size_arena]
  exact (List.getElem?_eq_some_iff.mp ((h.copy?_iff id copy).mp hcopy)).1

theorem mem_iff (h : Copies t p ids) : id ∈ ids ↔ ∃ copy, p.copy? id = some copy := by
  simp only [h.copy?_iff]
  exact List.mem_iff_getElem?

theorem not_mem (h : Copies t p ids) (hcopy : p.copy? id = none) : id ∉ ids := by
  intro hmem
  obtain ⟨copy, hsome⟩ := h.mem_iff.mp hmem
  rw [hcopy] at hsome
  cases hsome

theorem copy?_eq_none (h : Copies t p ids) (hnew : id ∉ ids) : p.copy? id = none := by
  refine Option.eq_none_iff_forall_ne_some.mpr fun copy hcopy => hnew ?_
  exact h.mem_iff.mpr ⟨copy, hcopy⟩

theorem copy?_add (h : Copies t p ids) (hlt : id < t.size) (j : Nat) :
    (p.add t id).copy? j = if j = id then some p.arena.size else p.copy? j := by
  simp only [copy?, Partial.add, Array.getElem?_setIfInBounds, h.size_copies]
  by_cases hj : id = j
  · simp [hj, hj ▸ hlt]
  · simp [hj, Ne.symm hj]

theorem add (h : Copies t p ids) (hlt : id < t.size) (hnew : id ∉ ids) :
    Copies t (p.add t id) (ids ++ [id]) where
  nodup := by
    rw [List.nodup_append]
    refine ⟨h.nodup, by simp, ?_⟩
    rintro a ha b hb rfl
    exact hnew (List.mem_singleton.mp hb ▸ ha)
  lt a ha := by
    rcases List.mem_append.mp ha with ha | ha
    · exact h.lt a ha
    · exact List.mem_singleton.mp ha ▸ hlt
  spans := by simp [Partial.add, h.spans]
  copy?_iff a copy := by
    rw [h.copy?_add hlt, h.size_arena, List.getElem?_append]
    by_cases ha : a = id
    · subst ha
      have := fun k => mt (List.mem_of_getElem? (l := ids) (i := k) (a := a)) hnew
      grind
    · rw [if_neg ha, h.copy?_iff]
      grind
  ordered := h.ordered.add _
  link copy above hlink := by
    obtain ⟨j, parent, hj, hparent, heq⟩ := h.link copy above (by simpa [Partial.add] using hlink)
    have keeps : ∀ k i : Nat, ids[k]? = some i → (ids ++ [id])[k]? = some i := fun k i hk => by
      rw [List.getElem?_append_left (List.getElem?_eq_some_iff.mp hk).1, hk]
    exact ⟨j, parent, keeps _ _ hj, keeps _ _ hparent, heq⟩
  size_copies := by simp [Partial.add, h.size_copies]

/-- The copy that was made last is attached. -/
theorem attach {parent above copy : Nat} (h : Copies t p ids) (hcopy : p.copy? id = some copy)
    (habove : p.copy? parent = some above) (hparent : t.parent id = some parent)
    (hfree : p.arena.parent copy = none)
    (hlast : ∀ c, p.arena.parent c = some above → c < copy) :
    Copies t (p.attach above copy) ids where
  nodup := h.nodup
  lt := h.lt
  spans := by simp [Partial.attach, h.spans]
  copy?_iff := h.copy?_iff
  ordered := h.ordered.attach (h.lt_size habove) (h.lt_size hcopy) hfree hlast
  link c a hlink := by
    rw [Partial.attach, Arena.parent_attach _ (h.lt_size hcopy)] at hlink
    split at hlink
    · next heq =>
      obtain rfl := Option.some.inj hlink
      exact ⟨id, parent, heq ▸ (h.copy?_iff id copy).mp hcopy, (h.copy?_iff parent above).mp habove,
        hparent⟩
    · exact h.link c a hlink
  size_copies := h.size_copies

/-- The same copies with another root. -/
theorem withRoot (h : Copies t p ids) (root : Option Nat) :
    Copies t { p with root := root } ids :=
  ⟨h.nodup, h.lt, h.spans, h.copy?_iff, h.ordered, h.link, h.size_copies⟩

end Copies

theorem Joined.empty (t : CallTree) : Joined t (.empty t) [] where
  toCopies := .empty t
  attached := by simp
  root_eq := ((Copies.empty t).copy?_eq_none (by simp)).symm

theorem Copies.attached_add {j : Nat} (h : Copies t p ids) (hlt : id < t.size) (hne : j ≠ id)
    (hj : Attached t p j) : Attached t (p.add t id) j := by
  intro copy parent hcopy hparent
  rw [h.copy?_add hlt, if_neg hne] at hcopy
  simpa [Partial.add] using hj copy parent hcopy hparent

theorem Attached.attach {j above copy : Nat} (hj : Attached t p j) (hcopy : copy < p.arena.size) :
    Attached t (p.attach above copy) j := by
  intro c parent hc hparent
  rw [Partial.attach, Arena.parent_attach _ hcopy]
  split
  · exact ⟨above, rfl⟩
  · exact hj c parent hc hparent

theorem attached_attach_self {above copy : Nat} (hcopy : p.copy? id = some copy)
    (hlt : copy < p.arena.size) : Attached t (p.attach above copy) id := by
  intro c parent hc _
  obtain rfl : c = copy := Option.some.inj (hc.symm.trans hcopy)
  rw [Partial.attach, Arena.parent_attach _ hlt, if_pos rfl]
  exact ⟨above, rfl⟩

/-! ### Freezing -/

/-- The node of which `copy` is the copy. -/
def node (ids : List Nat) (copy : Nat) : Nat := ids.getD copy 0

namespace Copies

theorem getElem?_iff (h : Copies t p ids) (copy : Nat) :
    ids[copy]? = some id ↔ copy < p.arena.size ∧ node ids copy = id := by
  rw [h.size_arena, List.getElem?_eq_some_iff]
  constructor
  · rintro ⟨hcopy, rfl⟩
    exact ⟨hcopy, List.getD_eq_getElem _ _ hcopy⟩
  · rintro ⟨hcopy, rfl⟩
    exact ⟨hcopy, (List.getD_eq_getElem _ _ hcopy).symm⟩

theorem copy?_node {copy : Nat} (h : Copies t p ids) (hcopy : copy < p.arena.size) :
    p.copy? (node ids copy) = some copy :=
  (h.copy?_iff _ _).mpr ((h.getElem?_iff copy).mpr ⟨hcopy, rfl⟩)

theorem node_of_copy? {copy : Nat} (h : Copies t p ids) (hcopy : p.copy? id = some copy) :
    node ids copy = id := ((h.getElem?_iff copy).mp ((h.copy?_iff id copy).mp hcopy)).2

theorem node_mem {copy : Nat} (h : Copies t p ids) (hcopy : copy < p.arena.size) :
    node ids copy ∈ ids := h.mem_iff.mpr ⟨copy, h.copy?_node hcopy⟩

theorem node_inj (h : Copies t p ids) {i j : Nat} (hi : i < p.arena.size) (hj : j < p.arena.size)
    (heq : node ids i = node ids j) : i = j :=
  Option.some.inj ((h.copy?_node hi).symm.trans (heq ▸ h.copy?_node hj))

end Copies

namespace Joined
variable (h : Joined t p ids)
include h

/-- The links of the arena are those of the tree. -/
theorem parent_node {copy : Nat} (hcopy : copy < p.arena.size) :
    t.parent (node ids copy) = (p.arena.parent copy).map (node ids) := by
  cases hlink : p.arena.parent copy with
  | none =>
    refine Option.eq_none_iff_forall_ne_some.mpr fun parent hparent => ?_
    obtain ⟨above, habove⟩ := h.attached _ (h.node_mem hcopy) copy parent (h.copy?_node hcopy) hparent
    rw [hlink] at habove
    cases habove
  | some above =>
    obtain ⟨i, j, hi, hj, hparent⟩ := h.link copy above hlink
    rw [((h.getElem?_iff copy).mp hi).2, hparent, Option.map_some, ((h.getElem?_iff above).mp hj).2]

theorem ranked (ht : t.Rooted) {root : Nat} (hroot : p.copy? t.root = some root) :
    p.arena.Ranked root fun copy => t.level (node ids copy) := by
  have hnode := h.node_of_copy? hroot
  have root_lt := h.lt_size hroot
  refine ⟨root_lt, ?_, ?_, fun copy hcopy hne => ?_⟩
  · have := h.parent_node root_lt
    rw [hnode, ht.parent_root] at this
    exact Option.map_eq_none_iff.mp this.symm
  · show t.level (node ids root) = 0
    rw [hnode, ht.level_root]
  · have hne' : node ids copy ≠ t.root := fun heq =>
      hne (h.node_inj hcopy root_lt (heq.trans hnode.symm))
    obtain ⟨parent, -, hparent⟩ := ht.exists_parent (h.lt _ (h.node_mem hcopy)) hne'
    have hlink := h.parent_node hcopy
    rw [hparent] at hlink
    obtain ⟨above, habove, rfl⟩ := Option.map_eq_some_iff.mp hlink.symm
    obtain ⟨_, _, -, hj, -⟩ := h.link copy above habove
    exact ⟨above, ((h.getElem?_iff above).mp hj).1, habove, ht.level_of_parent hparent⟩

theorem exists_finish (ht : t.Rooted) (hroot : t.root ∈ ids) :
    ∃ u f, p.finish = .ok u ∧ u.Regular ∧ Embeds f u t ∧ (List.range u.size).map f = ids := by
  obtain ⟨root, hcopy⟩ := h.mem_iff.mp hroot
  obtain ⟨u, hu⟩ := h.ordered.toConsistent.exists_finish (h.ranked ht hcopy)
  obtain ⟨hthaw, hu_root, -⟩ := Arena.finish_eq_ok hu
  have hsize : u.size = p.arena.size := by rw [← u.size_thaw, hthaw]
  refine ⟨u, node ids, ?_, h.ordered.regular hu, ⟨?_, ?_, ?_, ?_, ?_⟩, ?_⟩
  · rw [finish, h.root_eq, hcopy]
    exact hu
  · exact fun k hk => h.lt _ (h.node_mem (hsize ▸ hk))
  · exact fun i hi j hj heq => h.node_inj (hsize ▸ hi) (hsize ▸ hj) heq
  · rw [hu_root, h.node_of_copy? hcopy]
  · intro k hk
    rw [← u.parent_thaw, hthaw]
    exact h.parent_node (hsize ▸ hk)
  · intro k hk
    have hspans : (List.range u.size).map u.span = ids.map t.span := by
      rw [← u.spans_thaw, hthaw, h.spans]
    have hget := congrArg (·[k]?) hspans
    simpa [hk, (h.getElem?_iff k).mpr ⟨hsize ▸ hk, rfl⟩] using hget
  · rw [hsize, h.size_arena]
    exact List.map_getD_range ids

end Joined
end CallTrace.CallTree.Partial
