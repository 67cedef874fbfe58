import CallTrace.Proofs.Tree.Layers
import CallTrace.Proofs.Tree.Walk
import Mathlib.Data.List.Nodup

/-! # Rooted trees

An arena is consistent if its parent links and its child links say the same
(`Arena.Consistent`).  If moreover every node but the root has a parent one rank below it, then
freezing it cannot fail (`Arena.Consistent.exists_finish`): the layers are the ranks, so no node is
reached twice, and none is left out.

The tree of a consistent arena is rooted (`CallTree.Rooted`).  In it each node but the root has a
parent, one level above (`Rooted.level_of_parent`), the breadth-first walk is the root followed by
the children of the nodes on it (`Rooted.bfs_eq`), and its levels never decrease
(`Rooted.pairwise_level_bfs`). -/

namespace CallTrace

namespace Arena

/-- The children of a node are those nodes that have it as parent. -/
structure Consistent (a : Arena) : Prop where
  nodup : ∀ parent, (a.children parent).Nodup
  mem_children : ∀ parent child, child ∈ a.children parent ↔ a.parent child = some parent

/-- Every node is as many steps below `root` as its rank says. -/
structure Ranked (a : Arena) (root : Nat) (rank : Nat → Nat) : Prop where
  root_lt : root < a.size
  parent_root : a.parent root = none
  rank_root : rank root = 0
  exists_parent : ∀ id < a.size, id ≠ root →
    ∃ parent < a.size, a.parent id = some parent ∧ rank id = rank parent + 1

variable {a : Arena} {root : Nat} {rank : Nat → Nat} {t : CallTree}

theorem lt_size_of_parent {child parent : Nat} (h : a.parent child = some parent) :
    child < a.size := by
  refine Decidable.byContradiction fun hle => ?_
  simp [Arena.parent, Array.getElem?_eq_none (show a.nodes.size ≤ child from Nat.not_lt.mp hle)] at h

theorem Ranked.parent_spec {child parent : Nat} (h : a.Ranked root rank)
    (hparent : a.parent child = some parent) : parent < a.size ∧ rank child = rank parent + 1 := by
  have hne : child ≠ root := by
    rintro rfl
    simp [h.parent_root] at hparent
  obtain ⟨above, habove, hlink, hrank⟩ := h.exists_parent child (lt_size_of_parent hparent) hne
  obtain rfl : above = parent := Option.some.inj (hlink.symm.trans hparent)
  exact ⟨habove, hrank⟩

/-- The nodes above a node have other ranks, so there are at least as many nodes. -/
theorem Ranked.rank_lt (h : a.Ranked root rank) {id : Nat} (hid : id < a.size) :
    rank id < a.size := by
  suffices ∀ n, ∀ id < a.size, rank id = n →
      ∃ line : List Nat, line.Nodup ∧ line.length = n + 1 ∧ ∀ j ∈ line, j < a.size ∧ rank j ≤ n by
    obtain ⟨line, hnodup, hlength, hline⟩ := this _ id hid rfl
    have hsub : line ⊆ List.range a.size := fun j hj => List.mem_range.mpr (hline j hj).1
    have := hnodup.length_le_of_subset hsub
    rw [List.length_range] at this
    omega
  intro n
  induction n with
  | zero => exact fun id hid hrank => ⟨[id], by simp, rfl, by simp [hid, hrank]⟩
  | succ n ih =>
    intro id hid hrank
    have hne : id ≠ root := by
      rintro rfl
      simp [h.rank_root] at hrank
    obtain ⟨parent, hlt, -, hparent⟩ := h.exists_parent id hid hne
    obtain ⟨line, hnodup, hlength, hline⟩ := ih parent hlt (by omega)
    refine ⟨id :: line, List.nodup_cons.mpr ⟨fun hmem => ?_, hnodup⟩, by simp [hlength], ?_⟩
    · have := (hline id hmem).2
      omega
    · intro j hj
      rcases List.mem_cons.mp hj with rfl | hj
      · exact ⟨hid, by omega⟩
      · exact ⟨(hline j hj).1, Nat.le_succ_of_le (hline j hj).2⟩

/-! ### Freezing succeeds -/

theorem exists_enterLayer? (level : Nat) {layer : List Nat} {levels : Array (Option Nat)}
    (hnodup : layer.Nodup) (hfresh : ∀ id ∈ layer, levels[id]? = some none) :
    ∃ levels', enterLayer? level layer levels = some levels' := by
  induction layer generalizing levels with
  | nil => exact ⟨levels, rfl⟩
  | cons id layer ih =>
    obtain ⟨hid, hlayer⟩ := List.nodup_cons.mp hnodup
    rw [enterLayer?, if_pos (hfresh id List.mem_cons_self)]
    refine ih hlayer fun j hj => ?_
    have hne : id ≠ j := fun e => hid (e ▸ hj)
    rw [Array.getElem?_setIfInBounds_ne hne]
    exact hfresh j (.tail _ hj)

/-- The children of the nodes of one rank are distinct. -/
theorem Consistent.nodup_flatMap (h : a.Consistent) {layer : List Nat} (hlayer : layer.Nodup) :
    (layer.flatMap a.children).Nodup := by
  refine List.nodup_flatMap.mpr ⟨fun id _ => h.nodup id, hlayer.imp fun hne => ?_⟩
  intro child hchild hchild'
  rw [h.mem_children] at hchild hchild'
  exact hne (Option.some.inj (hchild.symm.trans hchild'))

theorem Consistent.exists_walk? (h : a.Consistent) (hr : a.Ranked root rank) {count level : Nat}
    {layer : List Nat} {levels : Array (Option Nat)} (hnodup : layer.Nodup)
    (hlayer : ∀ id ∈ layer, id < a.size ∧ rank id = level)
    (hfresh : ∀ id < a.size, level ≤ rank id → levels[id]? = some none)
    (hcount : ∀ id < a.size, rank id < level + count) :
    ∃ levels', a.walk? count level layer levels = some levels' := by
  induction count generalizing level layer levels with
  | zero =>
    cases layer with
    | nil => exact ⟨levels, by rw [walk?]⟩
    | cons id layer =>
      obtain ⟨hid, hrank⟩ := hlayer id List.mem_cons_self
      have := hcount id hid
      omega
  | succ count ih =>
    cases layer with
    | nil => exact ⟨levels, by rw [walk?]⟩
    | cons id layer =>
      obtain ⟨entered, henter⟩ := exists_enterLayer? level hnodup
        fun j hj => hfresh j (hlayer j hj).1 (Nat.le_of_eq (hlayer j hj).2.symm)
      have hrest := (enterLayer?_eq_some henter).rest
      rw [walk?, henter]
      refine ih (h.nodup_flatMap hnodup) ?_ ?_ fun j hj => by have := hcount j hj; omega
      · intro child hchild
        obtain ⟨parent, hparent, hmem⟩ := List.mem_flatMap.mp hchild
        have hlink := (h.mem_children parent child).mp hmem
        have := (hr.parent_spec hlink).2
        have := (hlayer parent hparent).2
        exact ⟨lt_size_of_parent hlink, by omega⟩
      · intro j hj hrank
        have hnot : j ∉ id :: layer := fun hmem => by
          have := (hlayer j hmem).2
          omega
        rw [hrest j (by simpa using hnot)]
        exact hfresh j hj (by omega)

/-- The nodes that are given levels are a walk over the tree. -/
theorem walk_of_walk? (hchildren : ∀ id, t.children id = a.children id) {count level : Nat}
    {layer : List Nat} {levels levels' : Array (Option Nat)}
    (h : a.walk? count level layer levels = some levels') :
    Walk t.children layer (t.layersFrom count layer).flatten := by
  have hsame : t.children = a.children := funext hchildren
  induction count generalizing level layer levels with
  | zero =>
    cases layer with
    | nil => exact .done
    | cons id layer => simp [walk?] at h
  | succ count ih =>
    cases layer with
    | nil => exact .done
    | cons id layer =>
      obtain ⟨entered, -, hwalk⟩ := Option.bind_eq_some_iff.mp h
      have := ih hwalk
      rw [← hsame] at this
      exact .layer this

theorem walk_bfs {levels : Array (Option Nat)} (hthaw : t.thaw = a) (hroot : t.root = root)
    (h : a.levels? root = some levels) : Walk t.children [t.root] t.bfs := by
  subst hthaw hroot
  have := walk_of_walk? (fun id => (t.children_thaw id).symm) h
  rwa [CallTree.size_thaw] at this

theorem walk_of_finish (hok : a.finish root = .ok t) : Walk t.children [t.root] t.bfs := by
  obtain ⟨hthaw, hroot, -⟩ := finish_eq_ok hok
  obtain ⟨-, levels, hlevels, -, -⟩ := finish_eq_ok_iff.mp hok
  exact walk_bfs hthaw hroot hlevels

theorem Consistent.exists_levels? (h : a.Consistent) (hr : a.Ranked root rank) :
    ∃ levels, a.levels? root = some levels := by
  refine h.exists_walk? hr (by simp) ?_ ?_ fun id hid => ?_
  · simp [hr.root_lt, hr.rank_root]
  · intro id hid _
    simp [hid]
  · rw [Nat.zero_add]
    exact hr.rank_lt hid

/-- The walk over the frozen tree meets every node, rank by rank. -/
theorem Consistent.mem_bfs (h : a.Consistent) (hr : a.Ranked root rank) (hthaw : t.thaw = a)
    (hroot : t.root = root) (hwalk : Walk t.children [t.root] t.bfs) {id : Nat}
    (hid : id < a.size) : id ∈ t.bfs := by
  induction hrank : rank id generalizing id with
  | zero =>
    by_cases hid' : id = root
    · rw [hwalk.eq_append_flatMap, hid', hroot]
      simp
    · obtain ⟨_, -, -, hrank'⟩ := hr.exists_parent id hid hid'
      omega
  | succ n ih =>
    have hne : id ≠ root := by
      rintro rfl
      simp [hr.rank_root] at hrank
    obtain ⟨parent, hlt, hlink, hrank'⟩ := hr.exists_parent id hid hne
    rw [hwalk.eq_append_flatMap]
    refine List.mem_append_right _ (List.mem_flatMap.mpr ⟨parent, ih hlt (by omega), ?_⟩)
    rw [← t.children_thaw, hthaw, h.mem_children]
    exact hlink

theorem Consistent.exists_finish (h : a.Consistent) (hr : a.Ranked root rank) :
    ∃ t, a.finish root = .ok t := by
  obtain ⟨levels, hlevels⟩ := h.exists_levels? hr
  have hthaw := thaw_frozen (size_levels hlevels) root
  have hnumbered := numbered_levels hthaw rfl hlevels
  refine ⟨_, finish_eq_ok_iff.mpr ⟨hr.parent_root, levels, hlevels, ?_, rfl⟩⟩
  rw [Array.all_eq_true]
  intro id hid
  have hmem := h.mem_bfs hr hthaw rfl (walk_bfs hthaw rfl hlevels) (size_levels hlevels ▸ hid)
  obtain ⟨layer, hlayer, hmem⟩ := List.mem_flatten.mp hmem
  obtain ⟨k, hk⟩ := List.mem_iff_getElem?.mp hlayer
  have := hnumbered.entered k layer hk id hmem
  rw [Array.getElem?_eq_getElem hid] at this
  simp [Option.some.inj this]

end Arena

/-! ### Levels and the breadth-first walk -/

namespace CallTree

/-- The walk over a finished tree comes to an end, and its links agree. -/
structure Rooted (t : CallTree) : Prop extends t.Finished where
  consistent : t.thaw.Consistent
  walk : Walk t.children [t.root] t.bfs

end CallTree

theorem Arena.Consistent.rooted {a : Arena} {root : Nat} {t : CallTree} (h : a.Consistent)
    (hok : a.finish root = .ok t) : t.Rooted := by
  obtain ⟨hthaw, -, hfinished⟩ := finish_eq_ok hok
  exact { hfinished with consistent := hthaw ▸ h, walk := walk_of_finish hok }

namespace CallTree
namespace Rooted
variable {t : CallTree} {id parent child : Nat}

theorem mem_children (h : t.Rooted) : child ∈ t.children parent ↔ t.parent child = some parent := by
  simpa using h.consistent.mem_children parent child

theorem nodup_children (h : t.Rooted) (id : Nat) : (t.children id).Nodup := by
  simpa using h.consistent.nodup id

theorem bfs_eq (h : t.Rooted) : t.bfs = t.root :: t.bfs.flatMap t.children :=
  h.walk.eq_append_flatMap

theorem mem_bfs_iff (h : t.Rooted) : id ∈ t.bfs ↔ id < t.size :=
  h.bfs_perm.mem_iff.trans List.mem_range

theorem nodup_bfs (h : t.Rooted) : t.bfs.Nodup := h.bfs_perm.nodup_iff.mpr List.nodup_range

theorem lt_size_of_parent (hparent : t.parent child = some parent) : child < t.size := by
  rw [← parent_thaw] at hparent
  simpa using Arena.lt_size_of_parent hparent

theorem exists_parent (h : t.Rooted) (hid : id < t.size) (hne : id ≠ t.root) :
    ∃ parent < t.size, t.parent id = some parent := by
  have hmem := h.mem_bfs_iff.mpr hid
  rw [h.bfs_eq] at hmem
  obtain ⟨parent, hparent, hchild⟩ := List.mem_flatMap.mp ((List.mem_cons.mp hmem).resolve_left hne)
  exact ⟨parent, h.mem_bfs_iff.mp hparent, h.mem_children.mp hchild⟩

theorem eq_root_of_parent (h : t.Rooted) (hid : id < t.size) (hnone : t.parent id = none) :
    id = t.root := by
  refine Decidable.byContradiction fun hne => ?_
  obtain ⟨parent, -, hparent⟩ := h.exists_parent hid hne
  rw [hnone] at hparent
  cases hparent

theorem ne_root (h : t.Rooted) (hparent : t.parent child = some parent) : child ≠ t.root := by
  rintro rfl
  simp [h.parent_root] at hparent

theorem parent_lt (h : t.Rooted) (hparent : t.parent child = some parent) : parent < t.size := by
  obtain ⟨above, hlt, habove⟩ := h.exists_parent (lt_size_of_parent hparent) (h.ne_root hparent)
  obtain rfl : above = parent := Option.some.inj (habove.symm.trans hparent)
  exact hlt

end Rooted

/-- A layer is followed by the children of its nodes. -/
theorem getElem?_layersFrom_succ {t : CallTree} {count k : Nat} {layer ids : List Nat}
    (h : (t.layersFrom count layer)[k + 1]? = some ids) :
    ∃ above, (t.layersFrom count layer)[k]? = some above ∧ ids = above.flatMap t.children := by
  induction count generalizing layer k with
  | zero => simp [layersFrom] at h
  | succ count ih =>
    cases layer with
    | nil => simp [layersFrom] at h
    | cons id layer =>
      rw [layersFrom, List.getElem?_cons_succ] at h
      cases k with
      | zero =>
        refine ⟨id :: layer, rfl, ?_⟩
        cases count with
        | zero => simp [layersFrom] at h
        | succ count =>
          cases hnext : (id :: layer).flatMap t.children with
          | nil => simp [hnext, layersFrom] at h
          | cons c next =>
            rw [hnext, layersFrom] at h
            exact (Option.some.inj h).symm
      | succ k => exact ih h

theorem length_layersFrom_le (t : CallTree) (count : Nat) (layer : List Nat) :
    (t.layersFrom count layer).length ≤ count := by
  induction count generalizing layer with
  | zero => simp [layersFrom]
  | succ count ih =>
    cases layer with
    | nil => simp [layersFrom]
    | cons id layer =>
      rw [layersFrom, List.length_cons]
      exact Nat.succ_le_succ (ih _)

namespace Rooted
variable {t : CallTree} {id parent child : Nat}

theorem getElem?_layers_zero (h : t.Rooted) : t.layers[0]? = some [t.root] := by
  obtain ⟨n, hn⟩ := Nat.exists_eq_succ_of_ne_zero (Nat.ne_of_gt (Nat.zero_lt_of_lt h.root_lt))
  rw [layers, hn, layersFrom]
  rfl

@[simp] theorem level_root (h : t.Rooted) : t.level t.root = 0 :=
  h.level_eq 0 _ h.getElem?_layers_zero t.root (by simp)

theorem exists_layer (h : t.Rooted) (hid : id < t.size) :
    ∃ layer, t.layers[t.level id]? = some layer ∧ id ∈ layer := by
  obtain ⟨layer, hlayer, hmem⟩ := List.mem_flatten.mp (h.mem_bfs_iff.mpr hid)
  obtain ⟨k, hk⟩ := List.mem_iff_getElem?.mp hlayer
  exact ⟨layer, by rwa [h.level_eq k layer hk id hmem], hmem⟩

theorem level_of_parent (h : t.Rooted) (hparent : t.parent child = some parent) :
    t.level child = t.level parent + 1 := by
  obtain ⟨layer, hlayer, hmem⟩ := h.exists_layer (lt_size_of_parent hparent)
  cases hk : t.level child with
  | zero =>
    rw [hk, h.getElem?_layers_zero] at hlayer
    obtain rfl := Option.some.inj hlayer
    exact absurd (List.mem_singleton.mp hmem) (h.ne_root hparent)
  | succ k =>
    rw [hk] at hlayer
    obtain ⟨above, habove, rfl⟩ := getElem?_layersFrom_succ hlayer
    obtain ⟨p, hp, hchild⟩ := List.mem_flatMap.mp hmem
    obtain rfl : p = parent := Option.some.inj ((h.mem_children.mp hchild).symm.trans hparent)
    rw [h.level_eq k above habove p hp]

theorem level_lt (h : t.Rooted) (hid : id < t.size) : t.level id < t.size := by
  obtain ⟨layer, hlayer, -⟩ := h.exists_layer hid
  have hlt := (List.getElem?_eq_some_iff.mp hlayer).1
  exact Nat.lt_of_lt_of_le hlt (t.length_layersFrom_le ..)

theorem pairwise_level_bfs (h : t.Rooted) : t.bfs.Pairwise fun i j => t.level i ≤ t.level j := by
  have level_eq : ∀ k, (hk : k < t.layers.length) → ∀ id ∈ t.layers[k], t.level id = k :=
    fun k hk => h.level_eq k _ (List.getElem?_eq_getElem hk)
  refine List.pairwise_flatten.mpr ⟨fun layer hlayer => ?_, ?_⟩
  · obtain ⟨k, hk, rfl⟩ := List.getElem_of_mem hlayer
    exact List.pairwise_of_forall_mem_list fun i hi j hj =>
      Nat.le_of_eq ((level_eq k hk i hi).trans (level_eq k hk j hj).symm)
  · refine List.pairwise_iff_getElem.mpr fun k l hk hl hlt i hi j hj => ?_
    rw [level_eq k hk i hi, level_eq l hl j hj]
    exact Nat.le_of_lt hlt

/-- Every property of the root that children take over from their parent holds of all nodes. -/
theorem induction (h : t.Rooted) {motive : ∀ id, id < t.size → Prop} (root : motive t.root h.root_lt)
    (call : ∀ child parent (hparent : t.parent child = some parent),
      motive parent (h.parent_lt hparent) → motive child (lt_size_of_parent hparent))
    (id : Nat) (hid : id < t.size) : motive id hid := by
  induction hlevel : t.level id generalizing id with
  | zero =>
    by_cases hne : id = t.root
    · subst hne
      exact root
    · obtain ⟨parent, -, hparent⟩ := h.exists_parent hid hne
      have := h.level_of_parent hparent
      omega
  | succ n ih =>
    have hne : id ≠ t.root := by
      rintro rfl
      simp [h.level_root] at hlevel
    obtain ⟨parent, hlt, hparent⟩ := h.exists_parent hid hne
    have := h.level_of_parent hparent
    exact call id parent hparent (ih parent hlt (by omega))

theorem eq_root_of_level (h : t.Rooted) (hid : id < t.size) (hlevel : t.level id = 0) :
    id = t.root := by
  refine Decidable.byContradiction fun hne => ?_
  obtain ⟨parent, -, hparent⟩ := h.exists_parent hid hne
  have := h.level_of_parent hparent
  omega

end Rooted
end CallTree
end CallTrace
