import CallTrace.Proofs.Lists.Firsts
import CallTrace.Proofs.Tree.Path

/-! # Which leaves are kept

Two nodes of one level are reached by the same calls from where their paths part if and only if
their hash paths agree as a whole (`Rooted.sameCalls_eq`): above the meeting point the paths are one.
So comparing leaves pairwise, level by level, keeps of all leaves with one hash path the first in
breadth-first order (`Rooted.keptLeaves_eq`). -/

namespace List
variable {ε α β : Type} {l : List α}

theorem anyM_eq_ok {f : α → Except ε Bool} {g : α → Bool} (h : ∀ a ∈ l, f a = .ok (g a)) :
    l.anyM f = .ok (l.any g) := by
  induction l with
  | nil => rfl
  | cons a l ih =>
    rw [anyM_cons, h a mem_cons_self, ih fun b hb => h b (.tail _ hb), any_cons]
    cases g a <;> rfl

theorem mapM_eq_ok {f : α → Except ε β} {g : α → β} (h : ∀ a ∈ l, f a = .ok (g a)) :
    l.mapM f = .ok (l.map g) := by
  induction l with
  | nil => rfl
  | cons a l ih =>
    rw [mapM_cons, h a mem_cons_self, ih fun b hb => h b (.tail _ hb)]
    rfl

/-- A list in the order of a key ends with the elements of the highest key. -/
theorem filter_lt_succ {key : α → Nat} (h : l.Pairwise fun a b => key a ≤ key b) (n : Nat) :
    l.filter (fun a => key a < n + 1)
      = l.filter (fun a => key a < n) ++ l.filter fun a => key a = n := by
  induction l with
  | nil => rfl
  | cons a l ih =>
    obtain ⟨ha, hl⟩ := pairwise_cons.mp h
    rcases Nat.lt_trichotomy (key a) n with hlt | heq | hgt
    · simp only [filter_cons, decide_eq_true_eq, if_pos (Nat.lt_succ_of_lt hlt), if_pos hlt,
        if_neg (Nat.ne_of_lt hlt), ih hl, cons_append]
    · have hnone : l.filter (fun b => key b < n) = [] := by
        refine filter_eq_nil_iff.mpr fun b hb => ?_
        have := ha b hb
        simp only [decide_eq_true_eq]
        omega
      simp only [filter_cons, decide_eq_true_eq, if_pos (show key a < n + 1 by omega),
        if_neg (show ¬ key a < n by omega), if_pos heq, ih hl, hnone, nil_append]
    · simp only [filter_cons, decide_eq_true_eq, if_neg (show ¬ key a < n + 1 by omega),
        if_neg (show ¬ key a < n by omega), if_neg (Nat.ne_of_gt hgt), ih hl]

end List

namespace CallTrace.CallTree
variable {t : CallTree} {u v leaf : Nat}

/-! ### Comparing two nodes -/

theorem Rooted.untilMeeting_path (h : t.Rooted) (hu : u < t.size) (hv : v < t.size) (hne : u ≠ v)
    (hlevel : t.level u = t.level v) : ∃ pairs, untilMeeting (t.path u) (t.path v) = .ok pairs ∧
      ((∀ x ∈ pairs, (t.span x.1).operationHash = (t.span x.2).operationHash)
        ↔ t.hashPath u = t.hashPath v) := by
  induction hn : t.level u generalizing u v with
  | zero =>
    have hroot := h.eq_root_of_level hu hn
    exact absurd (hroot.trans (h.eq_root_of_level hv (by omega)).symm) hne
  | succ n ih =>
    have below_root : ∀ w, t.level w = n + 1 → w < t.size → ∃ p, t.parent w = some p := by
      intro w hw hlt
      obtain ⟨p, -, hp⟩ := h.exists_parent hlt (by rintro rfl; simp [h.level_root] at hw)
      exact ⟨p, hp⟩
    obtain ⟨p, hp⟩ := below_root u hn hu
    obtain ⟨q, hq⟩ := below_root v (by omega) hv
    have hashPath_of : ∀ w r, t.parent w = some r →
        t.hashPath w = (t.span w).operationHash :: t.hashPath r := by
      intro w r hr
      rw [hashPath, h.path_of_parent hr, List.map_cons, hashPath]
    rw [h.path_of_parent hp, h.path_of_parent hq, hashPath_of u p hp, hashPath_of v q hq, path, path,
      untilMeeting]
    by_cases hpq : p = q
    · rw [if_pos hpq]
      exact ⟨[(u, v)], rfl, by simp [hpq]⟩
    · have := h.level_of_parent hp
      have := h.level_of_parent hq
      obtain ⟨pairs, hpairs, hiff⟩ := ih (h.parent_lt hp) (h.parent_lt hq) hpq (by omega) (by omega)
      rw [if_neg hpq]
      refine ⟨(u, v) :: pairs, ?_, by simp [← hiff]⟩
      rw [path, path] at hpairs
      rw [hpairs]
      rfl

theorem Rooted.sameCalls_eq (h : t.Rooted) (hu : u < t.size) (hv : v < t.size) (hne : u ≠ v)
    (hlevel : t.level u = t.level v) :
    t.sameCalls u v = .ok (decide (t.hashPath u = t.hashPath v)) := by
  obtain ⟨pairs, hpairs, hiff⟩ := h.untilMeeting_path hu hv hne hlevel
  have hmeet : t.pathsToMeeting u v = .ok pairs := by
    rw [pathsToMeeting, if_neg (not_not_intro hlevel)]
    exact hpairs
  rw [sameCalls, hmeet]
  show Except.ok _ = _
  rw [← decide_eq_decide.mpr hiff]
  congr 1
  rw [Bool.eq_iff_iff, List.all_eq_true, decide_eq_true_eq]
  exact forall₂_congr fun x _ => decide_eq_true_iff

/-! ### Level by level -/

/-- A hash path is as long as its level says. -/
theorem Rooted.hashPath_ne (h : t.Rooted) (hu : u < t.size) (hv : v < t.size)
    (hlevel : t.level u ≠ t.level v) : t.hashPath u ≠ t.hashPath v := by
  intro heq
  have hlength := congrArg List.length heq
  rw [hashPath, hashPath, List.length_map, List.length_map, h.length_path hu, h.length_path hv]
    at hlength
  omega

theorem Rooted.foldlM_keep (h : t.Rooted) {level : Nat} {candidates : List Nat}
    (hnodup : candidates.Nodup) (hlevel : ∀ id ∈ candidates, id < t.size ∧ t.level id = level) :
    candidates.foldlM t.keep [] = .ok (candidates.firsts t.hashPath) := by
  induction candidates using List.reverseRecOn with
  | nil => rfl
  | append_singleton candidates leaf ih =>
    have hold := fun id hid => hlevel id (List.mem_append_left _ hid)
    have hnew := hlevel leaf (by simp)
    rw [List.nodup_append] at hnodup
    have hany : (candidates.firsts t.hashPath).anyM (fun u => t.sameCalls u leaf)
        = .ok ((candidates.firsts t.hashPath).any fun u => t.hashPath u = t.hashPath leaf) := by
      refine List.anyM_eq_ok fun u hu => ?_
      have hmem := List.firsts_sublist.subset hu
      exact h.sameCalls_eq (hold u hmem).1 hnew.1 (hnodup.2.2 u hmem leaf (by simp))
        ((hold u hmem).2.trans hnew.2.symm)
    rw [List.foldlM_append, ih hnodup.1 hold]
    show (keep t _ leaf >>= pure) = _
    rw [bind_pure, keep, hany, List.firsts_append_singleton]
    show ite _ _ _ = _
    simp only [List.any_eq_true, decide_eq_true_eq, List.mem_map]
    split <;> rfl

theorem depth_le_iff {n : Nat} : t.depth ≤ n ↔ ∀ id < t.size, t.level id ≤ n := by
  have foldl_le : ∀ (l : List Node) (d : Nat),
      l.foldl (fun d n => max d n.level) d ≤ n ↔ d ≤ n ∧ ∀ x ∈ l, x.level ≤ n := by
    intro l
    induction l with
    | nil => simp
    | cons x l ih =>
      intro d
      rw [List.foldl_cons, ih, Nat.max_le, List.forall_mem_cons, and_assoc]
  rw [depth, ← Array.foldl_toList, foldl_le]
  simp only [Nat.zero_le, true_and, List.mem_iff_getElem, Array.length_toList]
  constructor
  · intro h id hid
    have hlt : id < t.nodes.size := hid
    simpa [level, node, node?, hlt] using h _ ⟨id, hlt, rfl⟩
  · rintro h _ ⟨id, hlt, rfl⟩
    simpa [level, node, node?, hlt] using h id hlt

theorem level_le_depth {id : Nat} (hid : id < t.size) : t.level id ≤ t.depth :=
  depth_le_iff.mp (Nat.le_refl _) id hid

/-- No level above the deepest is left out. -/
theorem Rooted.exists_level (h : t.Rooted) {level : Nat} (hlevel : level ≤ t.depth) :
    ∃ id < t.size, t.level id = level := by
  have above : ∀ id < t.size, level ≤ t.level id → ∃ x < t.size, t.level x = level := by
    intro id hid hle
    induction id, hid using h.induction with
    | root =>
      rw [h.level_root, Nat.le_zero] at hle
      exact ⟨t.root, h.root_lt, h.level_root.trans hle.symm⟩
    | call child parent hparent ih =>
      rcases Nat.eq_or_lt_of_le hle with heq | hlt
      · exact ⟨child, lt_size_of_parent hparent, heq.symm⟩
      · rw [h.level_of_parent hparent] at hlt
        exact ih (Nat.le_of_lt_succ hlt)
  cases level with
  | zero => exact ⟨t.root, h.root_lt, h.level_root⟩
  | succ n =>
    obtain ⟨id, hid, hlt⟩ : ∃ id < t.size, n < t.level id := by
      have := mt depth_le_iff.mpr (Nat.not_le.mpr hlevel)
      simpa using this
    exact above id hid hlt

theorem Rooted.pairwise_level_leaves (h : t.Rooted) :
    t.leaves.Pairwise fun i j => t.level i ≤ t.level j :=
  h.pairwise_level_bfs.sublist List.filter_sublist

/-- Of all leaves with one hash path the first is kept. -/
theorem Rooted.keptLeaves_eq (h : t.Rooted) :
    t.keptLeaves = .ok (t.leaves.firsts t.hashPath) := by
  have hlt : ∀ id ∈ t.leaves, id < t.size := fun id hid => (h.mem_leaves.mp hid).1
  have hlevels : (List.range (t.depth + 1)).mapM (fun level => (t.leavesAt level).foldlM t.keep [])
      = .ok ((List.range (t.depth + 1)).map fun level => (t.leavesAt level).firsts t.hashPath) := by
    refine List.mapM_eq_ok fun level _ => ?_
    have hat : ∀ id ∈ t.leavesAt level, id < t.size ∧ t.level id = level := fun id hid =>
      ⟨hlt id (List.mem_filter.mp hid).1, of_decide_eq_true (List.mem_filter.mp hid).2⟩
    exact h.foldlM_keep
      (h.nodup_bfs.sublist (List.filter_sublist.trans List.filter_sublist)) hat
  have hflatten : ∀ n, ((List.range n).map fun level => (t.leavesAt level).firsts t.hashPath).flatten
      = (t.leaves.filter fun id => t.level id < n).firsts t.hashPath := by
    intro n
    induction n with
    | zero => simp
    | succ n ih =>
      rw [List.range_succ, List.map_append, List.flatten_append, ih,
        List.filter_lt_succ h.pairwise_level_leaves, List.firsts_append_of_disjoint]
      · simp [leavesAt]
      · intro i hi j hj
        rw [List.mem_filter, decide_eq_true_eq] at hi hj
        exact h.hashPath_ne (hlt i hi.1) (hlt j hj.1) (by omega)
  have hall : (t.leaves.filter fun id => t.level id < t.depth + 1) = t.leaves := by
    refine List.filter_eq_self.mpr fun id hid => decide_eq_true ?_
    exact Nat.lt_succ_of_le (level_le_depth (hlt id hid))
  rw [keptLeaves, hlevels]
  show Except.ok _ = _
  rw [hflatten, hall]

end CallTrace.CallTree
