import CallTrace.Proofs.Tree.Rooted
import CallTrace.Tree.Collapse

/-! # Paths to the root

The path of a node is the node with its ancestors, up to the root (`CallTree.path`), and a node is
below those on its path.  In a rooted tree the path of a node is the node before the path of its
parent (`Rooted.path_of_parent`), so it has one node of each level, and every node has a leaf below
it (`Rooted.exists_leaf`).

Nodes of one level come in the order of the nodes above them (`Rooted.sublist_bfs_of_mem_path`). -/

namespace CallTrace.CallTree

/-- A node and its ancestors. -/
def path (t : CallTree) (id : Nat) : List Nat := id :: t.ancestors id

/-- The operations on the way from a node up to the root. -/
def hashPath (t : CallTree) (id : Nat) : List String :=
  (t.path id).map fun j => (t.span j).operationHash

namespace Rooted
variable {t : CallTree} {id parent child a b x y : Nat}

theorem ancestorsWithin_eq (h : t.Rooted) {count : Nat} (hid : id < t.size)
    (hcount : t.level id ≤ count) : t.ancestorsWithin count id = t.ancestorsWithin (t.level id) id := by
  induction count generalizing id with
  | zero => rw [Nat.le_zero.mp hcount]
  | succ count ih =>
    cases hparent : t.parent id with
    | none =>
      have hroot : ∀ n, t.ancestorsWithin n id = [] := by
        intro n
        cases n <;> simp [ancestorsWithin, hparent]
      rw [hroot, hroot]
    | some parent =>
      have hlevel := h.level_of_parent hparent
      rw [hlevel, ancestorsWithin, ancestorsWithin]
      simp only [hparent]
      rw [ih (h.parent_lt hparent) (by omega)]

theorem ancestors_root (h : t.Rooted) : t.ancestors t.root = [] := by
  rw [ancestors, h.ancestorsWithin_eq h.root_lt (by simp [h.level_root]), h.level_root]
  rfl

theorem ancestors_of_parent (h : t.Rooted) (hparent : t.parent child = some parent) :
    t.ancestors child = t.path parent := by
  have hlt := lt_size_of_parent hparent
  have hparent_lt := h.parent_lt hparent
  rw [path, ancestors, ancestors, h.ancestorsWithin_eq hlt (Nat.le_of_lt (h.level_lt hlt)),
    h.ancestorsWithin_eq hparent_lt (Nat.le_of_lt (h.level_lt hparent_lt)),
    h.level_of_parent hparent, ancestorsWithin]
  simp only [hparent]

theorem eq_root_of_ancestors (h : t.Rooted) (hid : id < t.size) (hnil : t.ancestors id = []) :
    id = t.root := by
  refine h.eq_root_of_parent hid (Option.eq_none_iff_forall_ne_some.mpr fun parent hparent => ?_)
  rw [h.ancestors_of_parent hparent, path] at hnil
  cases hnil

theorem parent_of_ancestors (h : t.Rooted) {above : List Nat} (hid : id < t.size)
    (hcons : t.ancestors id = parent :: above) :
    t.parent id = some parent ∧ t.ancestors parent = above := by
  have hne : id ≠ t.root := by
    rintro rfl
    rw [h.ancestors_root] at hcons
    cases hcons
  obtain ⟨q, -, hq⟩ := h.exists_parent hid hne
  rw [h.ancestors_of_parent hq, path] at hcons
  obtain ⟨rfl, rfl⟩ := List.cons.inj hcons
  exact ⟨hq, rfl⟩

theorem path_root (h : t.Rooted) : t.path t.root = [t.root] := by rw [path, h.ancestors_root]

theorem path_of_parent (h : t.Rooted) (hparent : t.parent child = some parent) :
    t.path child = child :: t.path parent := by rw [path, h.ancestors_of_parent hparent]

theorem hashPath_of_parent (h : t.Rooted) (hparent : t.parent child = some parent) :
    t.hashPath child = (t.span child).operationHash :: t.hashPath parent := by
  rw [hashPath, h.path_of_parent hparent, List.map_cons, hashPath]

theorem length_path (h : t.Rooted) (hid : id < t.size) : (t.path id).length = t.level id + 1 := by
  induction id, hid using h.induction with
  | root => simp [h.path_root, h.level_root]
  | call child parent hparent ih => simp [h.path_of_parent hparent, h.level_of_parent hparent, ih]

theorem root_mem_path (h : t.Rooted) (hid : id < t.size) : t.root ∈ t.path id := by
  induction id, hid using h.induction with
  | root => simp [h.path_root]
  | call child parent hparent ih => simp [h.path_of_parent hparent, ih]

end Rooted

@[simp] theorem mem_path_self (t : CallTree) (id : Nat) : id ∈ t.path id := List.mem_cons_self

namespace Rooted
variable {t : CallTree} {id parent child a b x y : Nat}

theorem lt_size_of_mem_path (h : t.Rooted) (hx : x < t.size) (ha : a ∈ t.path x) : a < t.size := by
  induction x, hx using h.induction with
  | root =>
    rw [h.path_root, List.mem_singleton] at ha
    exact ha ▸ h.root_lt
  | call child parent hparent ih =>
    rw [h.path_of_parent hparent] at ha
    rcases List.mem_cons.mp ha with rfl | ha
    · exact lt_size_of_parent hparent
    · exact ih ha

/-- A path goes on with the paths of its nodes. -/
theorem path_suffix (h : t.Rooted) (hx : x < t.size) (ha : a ∈ t.path x) :
    t.path a <:+ t.path x := by
  induction x, hx using h.induction with
  | root =>
    rw [h.path_root, List.mem_singleton] at ha
    subst ha
    exact List.suffix_refl _
  | call child parent hparent ih =>
    rw [h.path_of_parent hparent] at ha
    rcases List.mem_cons.mp ha with rfl | ha
    · exact List.suffix_refl _
    · rw [h.path_of_parent hparent]
      exact (ih ha).trans (List.suffix_cons ..)

theorem mem_path_trans (h : t.Rooted) (hx : x < t.size) (ha : a ∈ t.path x) (hb : b ∈ t.path a) :
    b ∈ t.path x := (h.path_suffix hx ha).subset hb

theorem parent_mem_path (h : t.Rooted) (hx : x < t.size) (ha : child ∈ t.path x)
    (hparent : t.parent child = some parent) : parent ∈ t.path x := by
  refine h.mem_path_trans hx ha ?_
  simp [h.path_of_parent hparent]

theorem level_le_of_mem_path (h : t.Rooted) (hx : x < t.size) (ha : a ∈ t.path x) :
    t.level a ≤ t.level x := by
  have hle := (h.path_suffix hx ha).length_le
  rw [h.length_path hx, h.length_path (h.lt_size_of_mem_path hx ha)] at hle
  omega

/-- A path has one node of each level. -/
theorem eq_of_mem_path (h : t.Rooted) (hx : x < t.size) (ha : a ∈ t.path x) (hb : b ∈ t.path x)
    (hlevel : t.level a = t.level b) : a = b := by
  have hlength : (t.path a).length = (t.path b).length := by
    rw [h.length_path (h.lt_size_of_mem_path hx ha), h.length_path (h.lt_size_of_mem_path hx hb),
      hlevel]
  have hsuffix := List.suffix_of_suffix_length_le (h.path_suffix hx ha) (h.path_suffix hx hb)
    (Nat.le_of_eq hlength)
  exact (List.cons.inj (hsuffix.eq_of_length hlength)).1

theorem not_mem_path_parent (h : t.Rooted) (hparent : t.parent child = some parent) :
    child ∉ t.path parent := by
  intro hmem
  have := h.level_le_of_mem_path (h.parent_lt hparent) hmem
  have := h.level_of_parent hparent
  omega

theorem nodup_path (h : t.Rooted) (hid : id < t.size) : (t.path id).Nodup := by
  induction id, hid using h.induction with
  | root => simp [h.path_root]
  | call child parent hparent ih =>
    rw [h.path_of_parent hparent]
    exact List.nodup_cons.mpr ⟨h.not_mem_path_parent hparent, ih⟩

theorem not_mem_ancestors (h : t.Rooted) (hid : id < t.size) : id ∉ t.ancestors id :=
  (List.nodup_cons.mp (h.nodup_path hid)).1

/-- Every property of a node that children take over from their parent holds of all nodes below. -/
theorem induction_below (h : t.Rooted) {motive : Nat → Prop} (top : motive a)
    (call : ∀ child parent, t.parent child = some parent → a ∈ t.path parent → motive parent →
      motive child) (hx : x < t.size) (ha : a ∈ t.path x) : motive x := by
  induction x, hx using h.induction with
  | root =>
    rw [h.path_root, List.mem_singleton] at ha
    exact ha ▸ top
  | call child parent hparent ih =>
    rw [h.path_of_parent hparent] at ha
    rcases List.mem_cons.mp ha with rfl | ha
    · exact top
    · exact call child parent hparent ha (ih ha)

/-- A node below another stands on a child of it. -/
theorem mem_path_of_ne (h : t.Rooted) (ha : a ∈ t.path x) (hne : a ≠ x) (hx : x < t.size) :
    ∃ parent, t.parent x = some parent ∧ a ∈ t.path parent := by
  by_cases hroot : x = t.root
  · subst hroot
    rw [h.path_root] at ha
    exact absurd (List.mem_singleton.mp ha) hne
  · obtain ⟨parent, -, hparent⟩ := h.exists_parent hx hroot
    rw [h.path_of_parent hparent] at ha
    exact ⟨parent, hparent, (List.mem_cons.mp ha).resolve_left hne⟩

/-! ### Leaves -/

theorem mem_leaves (h : t.Rooted) : x ∈ t.leaves ↔ x < t.size ∧ t.children x = [] := by
  simp [leaves, h.mem_bfs_iff, isLeaf]

theorem eq_of_mem_path_of_leaf (h : t.Rooted) (hleaf : t.children a = []) (ha : a ∈ t.path x)
    (hx : x < t.size) : a = x := by
  induction x, hx using h.induction with
  | root => simpa [h.path_root] using ha
  | call child parent hparent ih =>
    rw [h.path_of_parent hparent] at ha
    rcases List.mem_cons.mp ha with rfl | ha
    · rfl
    · have hmem := h.mem_children.mpr hparent
      rw [← ih ha, hleaf] at hmem
      simp at hmem

/-- Every node has a leaf below it. -/
theorem exists_leaf (h : t.Rooted) (hid : id < t.size) : ∃ x ∈ t.leaves, id ∈ t.path x := by
  induction hn : t.size - t.level id generalizing id with
  | zero =>
    have := h.level_lt hid
    omega
  | succ n ih =>
    cases hchildren : t.children id with
    | nil => exact ⟨id, h.mem_leaves.mpr ⟨hid, hchildren⟩, by simp⟩
    | cons child rest =>
      have hparent : t.parent child = some id := h.mem_children.mp (by simp [hchildren])
      have hlt := lt_size_of_parent hparent
      have hlevel := h.level_of_parent hparent
      obtain ⟨x, hx, hmem⟩ := ih hlt (by have := h.level_lt hlt; omega)
      exact ⟨x, hx, h.parent_mem_path (h.mem_leaves.mp hx).1 hmem hparent⟩

/-! ### The order of the walk -/

theorem children_sublist_bfs (h : t.Rooted) (hid : id < t.size) : (t.children id).Sublist t.bfs := by
  rw [h.bfs_eq]
  exact (List.sublist_flatMap_of_mem _ (h.mem_bfs_iff.mpr hid)).cons _

/-- Nodes of one level come in the order of the nodes above them. -/
theorem sublist_bfs_of_mem_path (h : t.Rooted) (hab : [a, b].Sublist t.bfs)
    (hlevel : t.level a = t.level b) (hx : x < t.size) (hy : y < t.size) (ha : a ∈ t.path x)
    (hb : b ∈ t.path y) (hxy : t.level x = t.level y) : [x, y].Sublist t.bfs := by
  induction hn : t.level x - t.level a generalizing x y with
  | zero =>
    have := h.level_le_of_mem_path hx ha
    have := h.level_le_of_mem_path hy hb
    rw [← h.eq_of_mem_path hx ha (t.mem_path_self x) (by omega),
      ← h.eq_of_mem_path hy hb (t.mem_path_self y) (by omega)]
    exact hab
  | succ n ih =>
    obtain ⟨p, hp, ha⟩ := h.mem_path_of_ne ha (by rintro rfl; omega) hx
    obtain ⟨q, hq, hb⟩ := h.mem_path_of_ne hb (by rintro rfl; omega) hy
    have := h.level_of_parent hp
    have := h.level_of_parent hq
    have hpq := ih (h.parent_lt hp) (h.parent_lt hq) ha hb (by omega) (by omega)
    rw [h.bfs_eq]
    exact (hpq.pair_flatMap (h.mem_children.mpr hp) (h.mem_children.mpr hq)).cons _

theorem sublist_bfs_of_level_lt (h : t.Rooted) (hx : x < t.size) (hy : y < t.size)
    (hlevel : t.level x < t.level y) : [x, y].Sublist t.bfs := by
  rcases List.sublist_or_sublist_swap (h.mem_bfs_iff.mpr hx) (h.mem_bfs_iff.mpr hy)
    (by rintro rfl; omega) with hxy | hyx
  · exact hxy
  · have := List.pairwise_iff_forall_sublist.mp h.pairwise_level_bfs hyx
    omega

end Rooted
end CallTrace.CallTree
