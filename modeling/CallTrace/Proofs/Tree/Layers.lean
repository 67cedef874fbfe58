import CallTrace.Tree.Traversal

/-! # The layers of a finished tree

`Arena.finish` enters layer by layer what the walk over the tree visits later, and refuses a node
that was entered before.  So in a finished tree the layers are disjoint, every node stands in one
of them, and its level says in which (`CallTree.Finished`).  Apart from the levels a finished tree
is the arena it was made from (`Arena.finish_eq_ok`). -/

namespace CallTrace

/-! ### Entering layers -/

namespace Arena

/-- The nodes of the layers, none of which had a level in `levels`, have them in `levels'`. -/
structure Numbered (level : Nat) (layers : List (List Nat)) (levels levels' : Array (Option Nat)) :
    Prop where
  nodup : layers.flatten.Nodup
  fresh : ∀ id ∈ layers.flatten, levels[id]? = some none
  entered : ∀ k layer, layers[k]? = some layer → ∀ id ∈ layer,
    levels'[id]? = some (some (level + k))
  rest : ∀ id, id ∉ layers.flatten → levels'[id]? = levels[id]?
  size : levels'.size = levels.size

theorem Numbered.nil (level : Nat) (levels : Array (Option Nat)) :
    Numbered level [] levels levels := ⟨by simp, by simp, by simp, fun _ _ => rfl, rfl⟩

theorem enterLayer?_eq_some {level : Nat} {layer : List Nat} {levels levels' : Array (Option Nat)}
    (h : enterLayer? level layer levels = some levels') :
    Numbered level [layer] levels levels' := by
  induction layer generalizing levels with
  | nil =>
    obtain rfl : levels = levels' := by simpa [enterLayer?] using h
    exact ⟨by simp, by simp, by simp [List.getElem?_singleton], fun _ _ => rfl, rfl⟩
  | cons id layer ih =>
    unfold enterLayer? at h
    split at h
    · next hid =>
      have hlt : id < levels.size := (Array.getElem?_eq_some_iff.mp hid).1
      have hset : ∀ j, (levels.setIfInBounds id (some level))[j]?
          = if id = j then some (some level) else levels[j]? := by
        intro j
        rw [Array.getElem?_setIfInBounds]
        grind
      have hrest := ih h
      have hnew : id ∉ layer := fun hmem => by
        have := hrest.fresh id (by simpa using hmem)
        simp [hset] at this
      refine ⟨?_, ?_, ?_, ?_, by simpa using hrest.size⟩
      · simpa using ⟨hnew, by simpa using hrest.nodup⟩
      · intro j hj
        rcases List.mem_cons.mp (by simpa using hj) with rfl | hj
        · exact hid
        · have := hrest.fresh j (by simpa using hj)
          rw [hset] at this
          grind
      · intro k ids hk j hj
        obtain ⟨rfl, rfl⟩ : k = 0 ∧ id :: layer = ids := by
          simpa [List.getElem?_singleton] using hk
        rcases List.mem_cons.mp hj with rfl | hj
        · rw [hrest.rest j (by simpa using hnew), hset, if_pos rfl, Nat.add_zero]
        · exact hrest.entered 0 layer rfl j hj
      · intro j hj
        have hj : j ≠ id ∧ j ∉ layer := by simpa using hj
        rw [hrest.rest j (by simpa using hj.2), hset, if_neg hj.1.symm]
    · simp at h

theorem Numbered.cons {level : Nat} {layer : List Nat} {layers : List (List Nat)}
    {levels levels' levels'' : Array (Option Nat)} (h : Numbered level [layer] levels levels')
    (h' : Numbered (level + 1) layers levels' levels'') :
    Numbered level (layer :: layers) levels levels'' := by
  have h_entered : ∀ id ∈ layer, levels'[id]? = some (some level) := h.entered 0 layer rfl
  have h_rest : ∀ id, id ∉ layer → levels'[id]? = levels[id]? :=
    fun id hid => h.rest id (by simpa using hid)
  have h_apart : ∀ id ∈ layer, id ∉ layers.flatten := by
    intro id hid hmem
    have := (h_entered id hid).symm.trans (h'.fresh id hmem)
    simp at this
  refine ⟨?_, ?_, ?_, ?_, h'.size.trans h.size⟩
  · rw [List.flatten_cons, List.nodup_append]
    refine ⟨by simpa using h.nodup, h'.nodup, ?_⟩
    rintro id hid _ hmem rfl
    exact h_apart id hid hmem
  · intro id hid
    rcases List.mem_append.mp hid with hid | hid
    · exact h.fresh id (by simpa using hid)
    · have hnot : id ∉ layer := fun hmem => h_apart id hmem hid
      exact (h_rest id hnot).symm.trans (h'.fresh id hid)
  · intro k ids hk id hid
    cases k with
    | zero =>
      obtain rfl : layer = ids := by simpa using hk
      rw [h'.rest id (h_apart id hid)]
      exact h_entered id hid
    | succ k =>
      have := h'.entered k ids (by simpa using hk) id hid
      rwa [Nat.add_right_comm] at this
  · intro id hid
    rw [List.flatten_cons, List.mem_append, not_or] at hid
    rw [h'.rest id hid.2, h_rest id hid.1]

/-- The walk enters the layers of any tree with the same children. -/
theorem walk?_eq_some {a : Arena} {t : CallTree} (hchildren : ∀ id, t.children id = a.children id)
    {count level : Nat} {layer : List Nat} {levels levels' : Array (Option Nat)}
    (h : a.walk? count level layer levels = some levels') :
    Numbered level (t.layersFrom count layer) levels levels' := by
  have hsame : t.children = a.children := funext hchildren
  induction count generalizing level layer levels with
  | zero =>
    cases layer with
    | nil =>
      obtain rfl : levels = levels' := by simpa [walk?] using h
      exact .nil level levels
    | cons id layer => simp [walk?] at h
  | succ count ih =>
    cases layer with
    | nil =>
      obtain rfl : levels = levels' := by simpa [walk?] using h
      exact .nil level levels
    | cons id layer =>
      obtain ⟨entered, henter, hwalk⟩ := Option.bind_eq_some_iff.mp h
      have := ih hwalk
      rw [← hsame] at this
      exact (enterLayer?_eq_some henter).cons this

end Arena

/-! ### Finished trees -/

namespace CallTree

/-- The arena that a tree was frozen from. -/
def thaw (t : CallTree) : Arena :=
  ⟨t.nodes.map fun n => { span := n.span, parent := n.parent, children := n.children }⟩

@[simp] theorem size_thaw (t : CallTree) : t.thaw.size = t.size := by
  simp [thaw, Arena.size, size]

@[simp] theorem parent_thaw (t : CallTree) (id : Nat) : t.thaw.parent id = t.parent id := by
  simp only [thaw, Arena.parent, parent, node, node?, Array.getElem?_map]
  cases t.nodes[id]? <;> rfl

@[simp] theorem children_thaw (t : CallTree) (id : Nat) : t.thaw.children id = t.children id := by
  simp only [thaw, Arena.children, children, node, node?, Array.getElem?_map]
  cases t.nodes[id]? <;> rfl

/-- Every node stands in one layer, and its level says in which. -/
structure Finished (t : CallTree) : Prop where
  root_lt : t.root < t.size
  parent_root : t.parent t.root = none
  bfs_perm : t.bfs.Perm (List.range t.size)
  level_eq : ∀ k layer, t.layers[k]? = some layer → ∀ id ∈ layer, t.level id = k

end CallTree

namespace Arena

/-- The tree of an arena whose nodes have these levels. -/
def frozen (a : Arena) (root : Nat) (levels : Array (Option Nat)) : CallTree where
  nodes := Array.zipWith (fun n level => ⟨n.span, n.parent, n.children, level.getD 0⟩) a.nodes levels
  root := root

theorem finish_eq_ok_iff {a : Arena} {root : Nat} {t : CallTree} :
    a.finish root = .ok t ↔ a.parent root = none ∧
      ∃ levels, a.levels? root = some levels ∧ levels.all Option.isSome = true ∧
        t = a.frozen root levels := by
  unfold finish
  cases a.parent root with
  | some p => simp
  | none =>
    cases a.levels? root with
    | none => simp
    | some levels =>
      by_cases h : levels.all Option.isSome = true
      · simp only [Option.isSome_none, Bool.false_eq_true, if_false, if_pos h, Option.some.injEq,
          exists_eq_left', true_and, Except.ok.injEq]
        exact ⟨fun e => ⟨h, e.symm⟩, fun e => e.2.symm⟩
      · simp only [Option.isSome_none, Bool.false_eq_true, if_false, if_neg h, reduceCtorEq,
          Option.some.injEq, exists_eq_left', false_iff]
        exact fun e => h e.2.1

theorem finish_eq_error {a : Arena} {root : Nat} {e : InvalidTrace} (h : a.finish root = .error e) :
    e = .cycle := by
  unfold finish at h
  split at h
  · exact (Except.error.inj h).symm
  split at h
  · exact (Except.error.inj h).symm
  split at h
  · cases h
  · exact (Except.error.inj h).symm

theorem thaw_frozen {a : Arena} {levels : Array (Option Nat)} (h : levels.size = a.size)
    (root : Nat) : (a.frozen root levels).thaw = a := by
  unfold size at h
  suffices (a.frozen root levels).thaw.nodes = a.nodes from congrArg Arena.mk this
  apply Array.ext
  · simp [CallTree.thaw, frozen, h]
  · intro i h₁ h₂
    simp [CallTree.thaw, frozen]

theorem level_frozen {a : Arena} {levels : Array (Option Nat)} {id level : Nat} (hid : id < a.size)
    (h : levels[id]? = some (some level)) (root : Nat) : (a.frozen root levels).level id = level := by
  have hlt := (Array.getElem?_eq_some_iff.mp h).1
  unfold size at hid
  simp [CallTree.level, CallTree.node, CallTree.node?, frozen, Array.getElem?_zipWith, hid, h]

theorem numbered_levels {a : Arena} {root : Nat} {t : CallTree} {levels : Array (Option Nat)}
    (ht : t.thaw = a) (hroot : t.root = root) (h : a.levels? root = some levels) :
    Numbered 0 t.layers (Array.replicate t.size none) levels := by
  subst ht hroot
  have := walk?_eq_some (fun id => (t.children_thaw id).symm) h
  rwa [CallTree.size_thaw] at this

theorem size_levels {a : Arena} {root : Nat} {levels : Array (Option Nat)}
    (h : a.levels? root = some levels) : levels.size = a.size := by
  have bare : (a.frozen root (Array.replicate a.size none)).thaw = a := thaw_frozen (by simp) root
  have := (numbered_levels bare rfl h).size
  rw [Array.size_replicate, ← CallTree.size_thaw, bare] at this
  exact this

theorem finish_eq_ok {a : Arena} {root : Nat} {t : CallTree} (h : a.finish root = .ok t) :
    t.thaw = a ∧ t.root = root ∧ t.Finished := by
  obtain ⟨hparent, levels, hlevels, hall, rfl⟩ := finish_eq_ok_iff.mp h
  have hsize := size_levels hlevels
  have hthaw := thaw_frozen hsize root
  have hnumbered := numbered_levels hthaw rfl hlevels
  generalize ht : a.frozen root levels = t at *
  have htsize : t.size = a.size := by rw [← CallTree.size_thaw, hthaw]
  have replicate_eq : ∀ id, (Array.replicate t.size (none : Option Nat))[id]? = some none
      ↔ id < t.size := by
    intro id
    simp [Array.getElem?_replicate]
  have mem_iff : ∀ id, id ∈ t.bfs ↔ id < t.size := by
    intro id
    refine ⟨fun hid => (replicate_eq id).mp (hnumbered.fresh id hid), fun hid => ?_⟩
    refine Decidable.byContradiction fun hmem => ?_
    have hnone := (hnumbered.rest id hmem).trans ((replicate_eq id).mpr hid)
    obtain ⟨hlt, hget⟩ := Array.getElem?_eq_some_iff.mp hnone
    have := Array.all_eq_true.mp hall id hlt
    simp [hget] at this
  refine ⟨hthaw, by rw [← ht]; rfl, ?_, ?_, ?_, ?_⟩
  · have hpos : t.size ≠ 0 := by
      intro hzero
      rw [levels?, ← htsize, hzero] at hlevels
      simp [walk?] at hlevels
    obtain ⟨n, hn⟩ := Nat.exists_eq_succ_of_ne_zero hpos
    refine (mem_iff t.root).mp ?_
    rw [CallTree.bfs, CallTree.layers, hn, CallTree.layersFrom]
    simp
  · rw [← CallTree.parent_thaw, hthaw, ← ht]
    exact hparent
  · exact (List.perm_ext_iff_of_nodup hnumbered.nodup List.nodup_range).mpr fun id =>
      (mem_iff id).trans List.mem_range.symm
  · intro k layer hk id hid
    have hlt : id < t.size := (mem_iff id).mp
      (List.mem_flatten.mpr ⟨layer, List.mem_of_getElem? hk, hid⟩)
    have := hnumbered.entered k layer hk id hid
    rw [Nat.zero_add] at this
    rw [← ht]
    exact level_frozen (htsize ▸ hlt) this root

end Arena
end CallTrace
