import CallTrace.Proofs.Tree.Copy
import CallTrace.Tree.Truncation

/-! # What truncation keeps

Truncation copies the nodes up to a level in breadth-first order, so that each node is copied after
its parent and nothing can fail (`Rooted.exists_truncate`).  The children of a node that is left are
those of its own that are left (`Truncated.map_children`), and it is met at the same place
(`Truncated.map_bfs`).

The leaves of the truncated tree are the nodes of the last level and the leaves above
it (`CallTree.ends`, `Truncated.map_leaves`). -/

namespace CallTrace.CallTree
variable {t u : CallTree} {p : Partial} {ids : List Nat} {id limit : Nat} {f : Nat → Nat}

/-! ### Copying downwards -/

namespace Partial.Joined

theorem addRoot (h : p.Joined t ids) (ht : t.Rooted) (hnew : t.root ∉ ids) :
    ({ p.add t t.root with root := some p.arena.size } : Partial).Joined t (ids ++ [t.root]) where
  toCopies := (h.toCopies.add ht.root_lt hnew).withRoot _
  attached j hj := by
    rcases List.mem_append.mp hj with hj | hj
    · exact h.attached_add ht.root_lt (fun e => hnew (e ▸ hj)) (h.attached j hj)
    · intro _ parent _ hparent
      rw [List.mem_singleton.mp hj, ht.parent_root] at hparent
      cases hparent
  root_eq := by
    show some p.arena.size = (p.add t t.root).copy? t.root
    rw [h.copy?_add ht.root_lt, if_pos rfl]

theorem addBelow (h : p.Joined t ids) (ht : t.Rooted) (hnew : id ∉ ids) {parent above : Nat}
    (hparent : t.parent id = some parent) (habove : p.copy? parent = some above) :
    ((p.add t id).attach above p.arena.size).Joined t (ids ++ [id]) := by
  have hlt := Rooted.lt_size_of_parent hparent
  have hcopies := h.toCopies.add hlt hnew
  have hne : parent ≠ id := by
    rintro rfl
    exact hnew (h.mem_iff.mpr ⟨above, habove⟩)
  have hcopy : (p.add t id).copy? id = some p.arena.size := by rw [h.copy?_add hlt, if_pos rfl]
  have hcopied : (p.add t id).copy? parent = some above := by
    rw [h.copy?_add hlt, if_neg hne, habove]
  have hlast := hcopies.lt_size hcopy
  have hlinked : ∀ c, (p.add t id).arena.parent c = some above → c < p.arena.size := fun c hc =>
    Arena.lt_size_of_parent (by simpa [Partial.add] using hc)
  refine ⟨hcopies.attach hcopy hcopied hparent (by simp [Partial.add]) hlinked, fun j hj => ?_, ?_⟩
  · rcases List.mem_append.mp hj with hj | hj
    · exact (h.attached_add hlt (fun e => hnew (e ▸ hj)) (h.attached j hj)).attach hlast
    · rw [List.mem_singleton.mp hj]
      exact attached_attach_self hcopy hlast
  · show p.root = (p.add t id).copy? t.root
    rw [h.copy?_add hlt, if_neg (ht.ne_root hparent).symm, h.root_eq]

/-- A node can be copied once its parent is. -/
theorem copyBelow (h : p.Joined t ids) (ht : t.Rooted) (hlt : id < t.size) (hnew : id ∉ ids)
    (habove : ∀ parent, t.parent id = some parent → parent ∈ ids) :
    ∃ q, t.copyBelow p id = .ok q ∧ q.Joined t (ids ++ [id]) := by
  cases hparent : t.parent id with
  | none =>
    obtain rfl := ht.eq_root_of_parent hlt hparent
    exact ⟨_, by simp only [CallTree.copyBelow, hparent], h.addRoot ht hnew⟩
  | some parent =>
    obtain ⟨above, hcopy⟩ := h.mem_iff.mp (habove parent hparent)
    have hne : parent ≠ id := by
      rintro rfl
      exact hnew (habove _ hparent)
    have hcopied : (p.add t id).copy? parent = some above := by
      rw [h.copy?_add hlt, if_neg hne, hcopy]
    exact ⟨_, by simp only [CallTree.copyBelow, hparent, hcopied], h.addBelow ht hnew hparent hcopy⟩

theorem foldlM_copyBelow (h : p.Joined t ids) (ht : t.Rooted) (kept : List Nat)
    (hlt : ∀ id ∈ kept, id < t.size) (hnodup : (ids ++ kept).Nodup)
    (habove : ∀ before id after, kept = before ++ id :: after →
      ∀ parent, t.parent id = some parent → parent ∈ ids ++ before) :
    ∃ q, kept.foldlM t.copyBelow p = .ok q ∧ q.Joined t (ids ++ kept) := by
  induction kept generalizing p ids with
  | nil => exact ⟨p, rfl, by simpa using h⟩
  | cons id kept ih =>
    have hnew : id ∉ ids := fun hmem =>
      (List.nodup_append.mp hnodup).2.2 id hmem id List.mem_cons_self rfl
    obtain ⟨next, hnext, hjoined⟩ := h.copyBelow ht (hlt id List.mem_cons_self) hnew
      fun parent hparent => by simpa using habove [] id kept rfl parent hparent
    rw [List.append_cons] at hnodup ⊢
    obtain ⟨q, hq, hq_joined⟩ := ih hjoined (fun j hj => hlt j (.tail _ hj)) hnodup
      fun before j after hsplit parent hparent => by
        rw [List.append_assoc]
        exact habove (id :: before) j after (by rw [hsplit, List.cons_append]) parent hparent
    exact ⟨q, by rw [List.foldlM_cons, hnext]; exact hq, hq_joined⟩

end Partial.Joined

/-- `u` is what is left of `t` up to a level. -/
structure Truncated (limit : Nat) (f : Nat → Nat) (u t : CallTree) : Prop extends Embeds f u t where
  regular : u.Regular
  range_eq : (List.range u.size).map f = t.bfs.filter fun id => t.level id ≤ limit

theorem Rooted.exists_truncate (h : t.Rooted) (limit : Nat) :
    ∃ u f, t.truncate limit = .ok u ∧ Truncated limit f u t := by
  have hsorted : (t.bfs.filter fun id => t.level id ≤ limit).Pairwise
      fun i j => t.level i ≤ t.level j := h.pairwise_level_bfs.sublist List.filter_sublist
  have htake : (t.bfs.takeWhile fun id => t.level id ≤ limit)
      = t.bfs.filter fun id => t.level id ≤ limit :=
    List.takeWhile_eq_filter_of_pairwise (h.pairwise_level_bfs.imp fun hij hj => by
      simp only [decide_eq_true_eq] at hj ⊢
      exact Nat.le_trans hij hj)
  have mem_kept : ∀ {id}, (id ∈ t.bfs.filter fun id => t.level id ≤ limit)
      ↔ id < t.size ∧ t.level id ≤ limit := by
    intro id
    rw [List.mem_filter, h.mem_bfs_iff, decide_eq_true_eq]
  obtain ⟨p, hp, hjoined⟩ := (Partial.Joined.empty t).foldlM_copyBelow h
    (t.bfs.filter fun id => t.level id ≤ limit) (fun id hid => (mem_kept.mp hid).1)
    (h.nodup_bfs.sublist List.filter_sublist) (by
      intro before id after hsplit parent hparent
      have hlevel := h.level_of_parent hparent
      have hid : t.level id ≤ limit := (mem_kept.mp (hsplit ▸ by simp)).2
      have hmem := mem_kept.mpr ⟨h.parent_lt hparent, show t.level parent ≤ limit by omega⟩
      rw [hsplit] at hmem hsorted
      -- what comes after a node is not above it
      refine (List.mem_append.mp hmem).resolve_right fun hafter => ?_
      rcases List.mem_cons.mp hafter with rfl | hafter
      · omega
      · have := (List.pairwise_cons.mp (List.pairwise_append.mp hsorted).2.1).1 parent hafter
        omega)
  obtain ⟨u, f, hu, hregular, hembeds, hrange⟩ := hjoined.exists_finish h
    (mem_kept.mpr ⟨h.root_lt, by simp [h.level_root]⟩)
  refine ⟨u, f, ?_, { hembeds with regular := hregular, range_eq := hrange }⟩
  rw [truncate, htake, hp]
  exact hu

/-! ### The truncated tree -/

/-- The nodes at which the paths end that are cut at a level. -/
def ends (t : CallTree) (limit : Nat) : List Nat :=
  t.bfs.filter fun id => t.level id = limit ∨ t.level id < limit ∧ t.isLeaf id

namespace Truncated
variable (h : Truncated limit f u t) (ht : t.Rooted)
include h ht

theorem map_children (hid : id < u.size) :
    (u.children id).map f = (t.children (f id)).filter fun c => t.level c ≤ limit := by
  rw [h.toEmbeds.map_children h.regular hid, h.range_eq, List.filter_filter,
    ← ht.filter_bfs (h.lt id hid), List.filter_filter]
  exact List.filter_congr fun c _ => Bool.and_comm ..

theorem map_bfs : u.bfs.map f = t.bfs.filter fun id => t.level id ≤ limit := by
  have hwalk : Walk (fun id => (t.children id).filter fun c => t.level c ≤ limit) [t.root]
      (u.bfs.map f) :=
    h.toEmbeds.walk h.regular.toRooted fun id hid => h.map_children ht hid
  refine hwalk.unique ?_
  have hroot : [t.root].filter (fun id => t.level id ≤ limit) = [t.root] :=
    List.filter_cons_of_pos (by simp [ht.level_root])
  rw [← hroot]
  refine ht.walk.filter (fun _ _ _ => rfl) fun id _ hid => ?_
  refine List.filter_eq_nil_iff.mpr fun c hc => ?_
  have := ht.level_of_parent (ht.mem_children.mp hc)
  simp only [decide_eq_true_eq, decide_eq_false_iff_not] at hid ⊢
  omega

theorem level_le (hid : id < u.size) : t.level (f id) ≤ limit := by
  have hmem : f id ∈ u.bfs.map f := List.mem_map_of_mem (h.regular.mem_bfs_iff.mpr hid)
  rw [h.map_bfs ht, List.mem_filter] at hmem
  exact of_decide_eq_true hmem.2

theorem isLeaf_iff (hid : id < u.size) :
    u.isLeaf id = true ↔ t.level (f id) = limit ∨ t.level (f id) < limit ∧ t.isLeaf (f id) := by
  have hle := h.level_le ht hid
  have hlevel : ∀ c ∈ t.children (f id), t.level c = t.level (f id) + 1 := fun c hc =>
    ht.level_of_parent (ht.mem_children.mp hc)
  have hnil : u.isLeaf id = true ↔ ∀ c ∈ t.children (f id), ¬ t.level c ≤ limit := by
    rw [isLeaf, List.isEmpty_iff, ← List.map_eq_nil_iff (f := f), h.map_children ht hid,
      List.filter_eq_nil_iff]
    simp only [decide_eq_true_eq]
  rw [hnil, isLeaf, List.isEmpty_iff]
  constructor
  · intro hall
    by_cases heq : t.level (f id) = limit
    · exact .inl heq
    · refine .inr ⟨by omega, List.eq_nil_iff_forall_not_mem.mpr fun c hc => hall c hc ?_⟩
      rw [hlevel c hc]
      omega
  · rintro (heq | ⟨-, hnone⟩) c hc
    · rw [hlevel c hc]
      omega
    · simp [hnone] at hc

theorem map_leaves : u.leaves.map f = t.ends limit := by
  have hends : t.ends limit = (t.bfs.filter fun id => t.level id ≤ limit).filter
      fun id => t.level id = limit ∨ t.level id < limit ∧ t.isLeaf id := by
    rw [ends, List.filter_filter]
    refine List.filter_congr fun id _ => ?_
    grind
  rw [hends, ← h.map_bfs ht, List.filter_map, leaves]
  congr 1
  refine List.filter_congr fun id hid => ?_
  rw [Bool.eq_iff_iff, h.isLeaf_iff ht (h.regular.mem_bfs_iff.mp hid)]
  simp

/-- Cutting twice is cutting at the lower of the two levels. -/
theorem trans {v : CallTree} {g : Nat → Nat} {lower : Nat} (h' : Truncated lower g v u) :
    Truncated (min limit lower) (f ∘ g) v t where
  toEmbeds := h.toEmbeds.trans h'.toEmbeds
  regular := h'.regular
  range_eq := by
    have hlevels : (u.bfs.filter fun id => u.level id ≤ lower)
        = u.bfs.filter ((fun x => decide (t.level x ≤ lower)) ∘ f) :=
      List.filter_congr fun id hid => by
        rw [Function.comp, h.toEmbeds.level h.regular.toRooted ht (h.regular.mem_bfs_iff.mp hid)]
    rw [← List.map_map, h'.range_eq, hlevels, ← List.filter_map, h.map_bfs ht, List.filter_filter]
    refine List.filter_congr fun id _ => ?_
    rw [Bool.eq_iff_iff]
    simp only [Bool.and_eq_true, decide_eq_true_eq, Nat.le_min]
    exact And.comm

end Truncated
end CallTrace.CallTree
