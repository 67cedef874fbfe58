import CallTrace.Proofs.Tree.Copy
import CallTrace.Proofs.Tree.KeptLeaves

/-! # What collapsing keeps

Leaf by leaf, a kept leaf is copied together with those of its ancestors that are not there yet.
`CallTree.grafted` is the list of nodes that this makes, in their order: the paths of the leaves
without what was met before, so the nodes above the leaves and no others (`mem_grafted`).  Climbing
links each copy to that of its parent or ends at the root (`Partial.Climbing.joined`), so collapsing
cannot fail (`Rooted.exists_collapse`).

Siblings come in the order of the first leaves below them (`Rooted.pairwise_grafted`). -/

namespace CallTrace.CallTree
variable {t u : CallTree} {p : Partial} {ids above leaves : List Nat} {id copy leaf x : Nat}

/-! ### The nodes above some leaves -/

def grafted (t : CallTree) (leaves : List Nat) : List Nat :=
  leaves.foldl (fun ids leaf => ids ++ (t.path leaf).filter (· ∉ ids)) []

theorem grafted_append_singleton : t.grafted (leaves ++ [leaf])
    = t.grafted leaves ++ (t.path leaf).filter (· ∉ t.grafted leaves) := by
  simp [grafted]

theorem mem_grafted : x ∈ t.grafted leaves ↔ ∃ leaf ∈ leaves, x ∈ t.path leaf := by
  induction leaves using List.reverseRecOn with
  | nil => simp [grafted]
  | append_singleton leaves leaf ih =>
    rw [grafted_append_singleton, List.mem_append, List.mem_filter, decide_eq_true_eq]
    simp only [List.mem_append, List.mem_singleton, or_and_right, exists_or, exists_eq_left, ← ih]
    by_cases hx : x ∈ t.grafted leaves <;> simp [hx]

/-- What is missing of a path, from its first node on. -/
theorem Rooted.filter_path (h : t.Rooted) (hid : id < t.size) (hnew : id ∉ ids) :
    (t.path id).filter (· ∉ ids) = id :: (t.ancestors id).filter (· ∉ ids ++ [id]) := by
  rw [path, List.filter_cons_of_pos (by simpa using hnew)]
  congr 1
  refine List.filter_congr fun j hj => ?_
  have : j ≠ id := fun e => h.not_mem_ancestors hid (e ▸ hj)
  simp [this]

theorem Rooted.nodup_grafted (h : t.Rooted) (hlt : ∀ leaf ∈ leaves, leaf < t.size) :
    (t.grafted leaves).Nodup := by
  induction leaves using List.reverseRecOn with
  | nil => exact List.nodup_nil
  | append_singleton leaves leaf ih =>
    rw [grafted_append_singleton, List.nodup_append]
    refine ⟨ih fun l hl => hlt l (List.mem_append_left _ hl),
      (h.nodup_path (hlt leaf (by simp))).sublist List.filter_sublist, ?_⟩
    rintro a ha _ hb rfl
    exact of_decide_eq_true (List.mem_filter.mp hb).2 ha

/-- Siblings come in the order of the first leaves below them. -/
theorem Rooted.pairwise_grafted (h : t.Rooted) {R : Nat → Nat → Prop}
    (hlt : ∀ leaf ∈ leaves, leaf < t.size) (hleaves : leaves.Pairwise R) (id : Nat) :
    ((t.grafted leaves).filter fun c => t.parent c = some id).Pairwise fun a b =>
      ∃ x ∈ leaves, a ∈ t.path x ∧ ∀ y ∈ leaves, b ∈ t.path y → R x y := by
  induction leaves using List.reverseRecOn with
  | nil => simp [grafted]
  | append_singleton leaves leaf ih =>
    have hold := fun l hl => hlt l (List.mem_append_left _ hl)
    have hleaf := hlt leaf (by simp)
    obtain ⟨hpairs, -, hlast⟩ := List.pairwise_append.mp hleaves
    rw [grafted_append_singleton, List.filter_append, List.pairwise_append]
    refine ⟨(ih hold hpairs).imp ?_, ?_, ?_⟩
    · rintro a b ⟨x, hx, ha, hxy⟩
      refine ⟨x, List.mem_append_left _ hx, ha, fun y hy hb => ?_⟩
      rcases List.mem_append.mp hy with hy | hy
      · exact hxy y hy hb
      · exact hlast x hx y hy
    · -- a path goes through one child of a node
      have hnodup := (((h.nodup_path hleaf).sublist List.filter_sublist).sublist
        (List.filter_sublist (p := fun c => decide (t.parent c = some id))
          (l := (t.path leaf).filter (· ∉ t.grafted leaves))))
      refine hnodup.pairwise_of_forall_ne fun a ha b hb hne => absurd ?_ hne
      simp only [List.mem_filter, decide_eq_true_eq] at ha hb
      refine h.eq_of_mem_path hleaf ha.1.1 hb.1.1 ?_
      rw [h.level_of_parent ha.2, h.level_of_parent hb.2]
    · intro a ha b hb
      simp only [List.mem_filter, decide_eq_true_eq] at ha hb
      obtain ⟨x, hx, hpath⟩ := mem_grafted.mp ha.1
      refine ⟨x, List.mem_append_left _ hx, hpath, fun y hy hbelow => ?_⟩
      rcases List.mem_append.mp hy with hy | hy
      · exact absurd (mem_grafted.mpr ⟨y, hy, hbelow⟩) hb.1.2
      · exact hlast x hx y hy

/-! ### Copying upwards -/

/-- Where all copies are attached but that of `id`, the nodes above a node that is not below `id`
are all there. -/
theorem Partial.Copies.path_subset (h : p.Copies t ids) (ht : t.Rooted)
    (hattached : ∀ j ∈ ids, j ≠ id → p.Attached t j) (hx : x < t.size) (hmem : x ∈ ids)
    (hid : id ∉ t.path x) : t.path x ⊆ ids := by
  induction x, hx using ht.induction with
  | root =>
    rw [ht.path_root]
    simpa using hmem
  | call child parent hparent ih =>
    rw [ht.path_of_parent hparent, List.mem_cons, not_or] at hid
    obtain ⟨copy, hcopy⟩ := h.mem_iff.mp hmem
    obtain ⟨above, hlink⟩ := hattached child hmem (Ne.symm hid.1) copy parent hcopy hparent
    obtain ⟨i, j, hi, hj, heq⟩ := h.link copy above hlink
    obtain rfl : i = child :=
      Option.some.inj (hi.symm.trans ((h.copy?_iff child copy).mp hcopy))
    obtain rfl : j = parent := Option.some.inj (heq.symm.trans hparent)
    rw [ht.path_of_parent hparent]
    exact List.cons_subset.mpr ⟨hmem, ih (List.mem_of_getElem? hj) hid.2⟩

/-- Everything is attached but the newest copy, that of the node `id`. -/
structure Partial.Climbing (t : CallTree) (p : Partial) (ids : List Nat) (id copy : Nat) : Prop
    extends Partial.Copies t p ids where
  copied : p.copy? id = some copy
  newest : copy + 1 = p.arena.size
  free : p.arena.parent copy = none
  attached : ∀ j ∈ ids, j ≠ id → p.Attached t j
  root_eq : id ≠ t.root → p.root = p.copy? t.root

namespace Partial.Climbing
variable {copy parent : Nat}

theorem lt_arena (h : Climbing t p ids id copy) : copy < p.arena.size := by
  rw [← h.newest]
  exact Nat.lt_succ_self copy

theorem lt_tree (h : Climbing t p ids id copy) : id < t.size := h.lt id (h.mem_iff.mpr ⟨copy, h.copied⟩)

/-- The climb starts from a copied leaf. -/
theorem start (h : p.Joined t ids) (hlt : id < t.size) (hnew : id ∉ ids) :
    Climbing t (p.add t id) (ids ++ [id]) id p.arena.size where
  toCopies := h.toCopies.add hlt hnew
  copied := by rw [h.copy?_add hlt, if_pos rfl]
  newest := by simp [Partial.add]
  free := by simp [Partial.add]
  attached j hj hne := by
    have hj := (List.mem_append.mp hj).resolve_right fun e => hne (List.mem_singleton.mp e)
    exact h.attached_add hlt hne (h.attached j hj)
  root_eq hne := by
    show p.root = (p.add t id).copy? t.root
    rw [h.copy?_add hlt, if_neg hne.symm, h.root_eq]

/-- The climb ends at the root. -/
theorem arrive (h : Climbing t p ids t.root copy) (ht : t.Rooted) :
    ({ p with root := some copy } : Partial).Joined t ids where
  toCopies := h.withRoot _
  attached j hj := by
    by_cases hne : j = t.root
    · intro _ parent _ hparent
      rw [hne, ht.parent_root] at hparent
      cases hparent
    · exact h.attached j hj hne
  root_eq := h.copied.symm

/-- The climb ends below a node that is there. -/
theorem meet (h : Climbing t p ids id copy) (ht : t.Rooted) {parentCopy : Nat}
    (hparent : t.parent id = some parent) (hcopy : p.copy? parent = some parentCopy) :
    (p.attach parentCopy copy).Joined t ids where
  toCopies := by
    refine h.toCopies.attach h.copied hcopy hparent h.free fun c hc => ?_
    have hne : c ≠ copy := by
      rintro rfl
      simp [h.free] at hc
    have := Arena.lt_size_of_parent hc
    have := h.newest
    omega
  attached j hj := by
    by_cases hj' : j = id
    · exact hj' ▸ attached_attach_self h.copied h.lt_arena
    · exact (h.attached j hj hj').attach h.lt_arena
  root_eq := h.root_eq (ht.ne_root hparent)

/-- The climb goes on from a new copy of the parent. -/
theorem step (h : Climbing t p ids id copy) (ht : t.Rooted) (hparent : t.parent id = some parent)
    (hnone : p.copy? parent = none) :
    Climbing t ((p.add t parent).attach p.arena.size copy) (ids ++ [parent]) parent p.arena.size := by
  have hlt := ht.parent_lt hparent
  have hnew := h.not_mem hnone
  have hne : id ≠ parent := by
    rintro rfl
    exact ht.not_mem_path_parent hparent (t.mem_path_self id)
  have copied : ∀ j, (p.add t parent).copy? j = if j = parent then some p.arena.size else p.copy? j :=
    h.copy?_add hlt
  have hcopy : (p.add t parent).copy? id = some copy := by rw [copied, if_neg hne, h.copied]
  have hparent_copy : (p.add t parent).copy? parent = some p.arena.size := by
    rw [copied, if_pos rfl]
  have parent_add : ∀ c, (p.add t parent).arena.parent c = p.arena.parent c := fun c => by
    simp [Partial.add]
  have copy_lt : copy < (p.add t parent).arena.size := by
    rw [Partial.add, Arena.size_add]
    exact Nat.lt_succ_of_lt h.lt_arena
  have childless : ∀ c, p.arena.parent c ≠ some p.arena.size := fun c hc => by
    obtain ⟨_, _, -, hout, -⟩ := h.link c _ hc
    rw [h.size_arena, List.getElem?_eq_none (Nat.le_refl _)] at hout
    cases hout
  refine ⟨(h.toCopies.add hlt hnew).attach hcopy hparent_copy hparent
    ((parent_add copy).trans h.free) fun c hc => absurd ((parent_add c).symm.trans hc) (childless c),
    hparent_copy, by simp [Partial.attach, Partial.add], ?_, fun j hj hj_ne => ?_, fun hroot => ?_⟩
  · rw [Partial.attach, Arena.parent_attach _ copy_lt, if_neg (Nat.ne_of_gt h.lt_arena), parent_add,
      Arena.parent_size]
  · by_cases hj' : j = id
    · exact hj' ▸ attached_attach_self hcopy copy_lt
    · have hj := (List.mem_append.mp hj).resolve_right fun e => hj_ne (List.mem_singleton.mp e)
      exact (h.attached_add hlt hj_ne (h.attached j hj hj')).attach copy_lt
  · show p.root = (p.add t parent).copy? t.root
    rw [copied, if_neg hroot.symm, h.root_eq (ht.ne_root hparent)]

/-- The ancestors that are missing are copied on the way up. -/
theorem joined (h : Climbing t p ids id copy) (ht : t.Rooted) (habove : t.ancestors id = above) :
    (t.climb p copy above).Joined t (ids ++ above.filter (· ∉ ids)) := by
  induction above generalizing p ids id copy with
  | nil =>
    obtain rfl := ht.eq_root_of_ancestors h.lt_tree habove
    rw [CallTree.climb, List.filter_nil, List.append_nil]
    exact h.arrive ht
  | cons parent above ih =>
    obtain ⟨hparent, hrest⟩ := ht.parent_of_ancestors h.lt_tree habove
    have hlt := ht.parent_lt hparent
    have hpath : t.path parent = parent :: above := by rw [path, hrest]
    rw [CallTree.climb]
    split
    · next parentCopy hcopy =>
      have hnone : (parent :: above).filter (· ∉ ids) = [] := by
        refine List.filter_eq_nil_iff.mpr fun j hj => ?_
        rw [decide_eq_true_eq, not_not]
        exact h.path_subset ht h.attached hlt (h.mem_iff.mpr ⟨parentCopy, hcopy⟩)
          (ht.not_mem_path_parent hparent) (hpath ▸ hj)
      rw [hnone, List.append_nil]
      exact h.meet ht hparent hcopy
    · next hcopy =>
      rw [← hpath, ht.filter_path hlt (h.not_mem hcopy), hrest, List.append_cons]
      exact ih (h.step ht hparent hcopy) hrest

end Partial.Climbing

/-- Copies a leaf and the ancestors that are missing. -/
theorem Partial.Joined.graft (h : p.Joined t ids) (ht : t.Rooted) (hlt : leaf < t.size)
    (hnew : leaf ∉ ids) : (t.graft p leaf).Joined t (ids ++ (t.path leaf).filter (· ∉ ids)) := by
  rw [CallTree.graft, ht.filter_path hlt hnew, List.append_cons]
  exact (Climbing.start h hlt hnew).joined ht rfl

theorem Rooted.joined_foldl_graft (h : t.Rooted) (hnodup : leaves.Nodup)
    (hleaves : ∀ leaf ∈ leaves, leaf ∈ t.leaves) :
    (leaves.foldl t.graft (.empty t)).Joined t (t.grafted leaves) := by
  induction leaves using List.reverseRecOn with
  | nil => exact .empty t
  | append_singleton leaves leaf ih =>
    have hold := fun j hj => hleaves j (List.mem_append_left _ hj)
    obtain ⟨hlt, hleaf⟩ := h.mem_leaves.mp (hleaves leaf (by simp))
    rw [List.nodup_append] at hnodup
    rw [List.foldl_append, grafted_append_singleton]
    refine (ih hnodup.1 hold).graft h hlt fun hmem => ?_
    obtain ⟨l, hl, hpath⟩ := mem_grafted.mp hmem
    have heq := h.eq_of_mem_path_of_leaf hleaf hpath (h.mem_leaves.mp (hold l hl)).1
    exact hnodup.2.2 l hl leaf (by simp) heq.symm

/-! ### The collapsed tree -/

/-- `u` consists of the nodes of `t` above some leaves. -/
structure Grafted (leaves : List Nat) (f : Nat → Nat) (u t : CallTree) : Prop
    extends Embeds f u t where
  regular : u.Regular
  range_eq : (List.range u.size).map f = t.grafted leaves

theorem Rooted.exists_collapse (h : t.Rooted) :
    ∃ u f, t.collapse = .ok u ∧ Grafted (t.leaves.firsts t.hashPath) f u t := by
  have hleaves : ∀ leaf ∈ t.leaves.firsts t.hashPath, leaf ∈ t.leaves := fun leaf hleaf =>
    List.firsts_sublist.subset hleaf
  have hnodup : (t.leaves.firsts t.hashPath).Nodup :=
    (h.nodup_bfs.sublist List.filter_sublist).sublist List.firsts_sublist
  have hroot : t.root ∈ t.grafted (t.leaves.firsts t.hashPath) := by
    obtain ⟨x, hx, -⟩ := h.exists_leaf h.root_lt
    obtain ⟨y, hy, -⟩ := List.exists_mem_firsts (f := t.hashPath) hx
    exact mem_grafted.mpr ⟨y, hy, h.root_mem_path (h.mem_leaves.mp (hleaves y hy)).1⟩
  obtain ⟨u, f, hu, hregular, hembeds, hrange⟩ :=
    (h.joined_foldl_graft hnodup hleaves).exists_finish h hroot
  refine ⟨u, f, ?_, { hembeds with regular := hregular, range_eq := hrange }⟩
  rw [collapse, h.keptLeaves_eq]
  exact hu

end CallTrace.CallTree
