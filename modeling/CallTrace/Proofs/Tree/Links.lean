import CallTrace.Proofs.Tree.Rooted
import Mathlib.Data.List.Sort

/-! # Links in order

Whoever builds a tree attaches the children of a node in the order in which they were added, so
the children of every node stand in the order of their numbers (`Arena.Ordered`).  Adding a node
keeps an arena in order, and so does attaching one that comes after all children of its parent
(`Arena.Ordered.attach`).

A tree from such an arena is regular (`CallTree.Regular`).  Its child lists say no more than its
parent links (`Regular.children_eq`), and it is determined by its spans, its root and its parent
links (`Regular.ext`). -/

namespace CallTrace

namespace Arena

/-- The spans of the nodes in the order of their numbers. -/
def spans (a : Arena) : List Span := a.nodes.toList.map (·.span)

@[simp] theorem length_spans (a : Arena) : a.spans.length = a.size := by simp [spans, size]

@[simp] theorem spans_add (a : Arena) (s : Span) : (a.add s).spans = a.spans ++ [s] := by
  simp [spans, add]

@[simp] theorem spans_attach (a : Arena) (parent child : Nat) :
    (a.attach parent child).spans = a.spans := by
  apply List.ext_getElem?
  intro i
  simp only [spans, attach, List.getElem?_map, Array.getElem?_toList, Array.getElem?_modify]
  cases a.nodes[i]? with
  | none => by_cases hp : parent = i <;> by_cases hc : child = i <;> simp [hp, hc]
  | some n => by_cases hp : parent = i <;> by_cases hc : child = i <;> simp [hp, hc]

@[simp] theorem parent_add (a : Arena) (s : Span) (id : Nat) :
    (a.add s).parent id = a.parent id := by
  simp only [parent, add, Array.getElem?_push]
  by_cases h : id = a.nodes.size <;> simp [h]

@[simp] theorem children_add (a : Arena) (s : Span) (id : Nat) :
    (a.add s).children id = a.children id := by
  simp only [children, add, Array.getElem?_push]
  by_cases h : id = a.nodes.size <;> simp [h]

/-- The node that is added next has no parent. -/
@[simp] theorem parent_size (a : Arena) : a.parent a.size = none := by
  refine Option.eq_none_iff_forall_ne_some.mpr fun parent hparent => ?_
  exact Nat.lt_irrefl _ (lt_size_of_parent hparent)

theorem parent_attach (a : Arena) {parent child : Nat} (hc : child < a.size) (id : Nat) :
    (a.attach parent child).parent id = if id = child then some parent else a.parent id := by
  unfold size at hc
  simp only [Arena.parent, attach, Array.getElem?_modify]
  by_cases h : child = id
  · subst h
    by_cases hp : parent = child <;> simp [hp, hc]
  · cases a.nodes[id]? <;> by_cases hp : parent = id <;> simp [h, Ne.symm h, hp]

/-- Links agree, and the children of every node stand in the order of their numbers. -/
structure Ordered (a : Arena) : Prop extends a.Consistent where
  sorted : ∀ parent, (a.children parent).Pairwise (· < ·)

theorem ordered_of {a : Arena} (sorted : ∀ parent, (a.children parent).Pairwise (· < ·))
    (mem_children : ∀ parent child, child ∈ a.children parent ↔ a.parent child = some parent) :
    a.Ordered where
  nodup parent := (sorted parent).imp Nat.ne_of_lt
  mem_children := mem_children
  sorted := sorted

theorem ordered_empty : ({} : Arena).Ordered :=
  ordered_of (fun _ => by simp [children]) fun _ _ => by simp [children, Arena.parent]

theorem Ordered.add {a : Arena} (h : a.Ordered) (s : Span) : (a.add s).Ordered :=
  ordered_of (fun parent => by simpa using h.sorted parent)
    fun parent child => by simpa using h.mem_children parent child

/-- The youngest of its siblings is attached. -/
theorem Ordered.attach {a : Arena} (h : a.Ordered) {parent child : Nat} (hp : parent < a.size)
    (hc : child < a.size) (hfree : a.parent child = none)
    (hlast : ∀ c, a.parent c = some parent → c < child) : (a.attach parent child).Ordered := by
  refine ordered_of (fun id => ?_) fun id c => ?_
  · rw [children_attach a hp]
    split
    · next heq =>
      subst heq
      refine List.pairwise_append.mpr ⟨h.sorted id, by simp, fun c hmem d hd => ?_⟩
      rw [List.mem_singleton.mp hd]
      exact hlast c ((h.mem_children id c).mp hmem)
    · exact h.sorted id
  · rw [children_attach a hp, parent_attach a hc]
    by_cases hid : id = parent <;> by_cases hchild : c = child
    · simp [hid, hchild]
    · simp [hid, hchild, h.mem_children]
    · simp [hid, hchild, h.mem_children, hfree, Ne.symm hid]
    · simp [hid, hchild, h.mem_children]

end Arena

namespace CallTree

/-- A rooted tree in which the children of every node stand in the order of their numbers. -/
structure Regular (t : CallTree) : Prop extends t.Rooted where
  sorted : ∀ parent, (t.children parent).Pairwise (· < ·)

theorem spans_thaw (t : CallTree) : t.thaw.spans = (List.range t.size).map t.span := by
  apply List.ext_getElem
  · simp
  · intro i h₁ h₂
    simp [Arena.spans, thaw, span, node, node?, show i < t.nodes.size by simpa [size] using h₂]

end CallTree

theorem Arena.Ordered.regular {a : Arena} {root : Nat} {t : CallTree} (h : a.Ordered)
    (hok : a.finish root = .ok t) : t.Regular where
  toRooted := h.toConsistent.rooted hok
  sorted parent := by
    rw [← t.children_thaw, (finish_eq_ok hok).1]
    exact h.sorted parent

/-- A tree is what its accessors say of its nodes. -/
theorem CallTree.ext_of_forall {t u : CallTree} (hsize : t.size = u.size) (hroot : t.root = u.root)
    (hspan : ∀ id < t.size, t.span id = u.span id)
    (hparent : ∀ id < t.size, t.parent id = u.parent id)
    (hchildren : ∀ id < t.size, t.children id = u.children id)
    (hlevel : ∀ id < t.size, t.level id = u.level id) : t = u := by
  have node_eq : ∀ (v : CallTree) (id : Nat) (hid : id < v.nodes.size),
      v.nodes[id] = ⟨v.span id, v.parent id, v.children id, v.level id⟩ := by
    intro v id hid
    simp [span, CallTree.parent, children, level, node, node?, hid]
  have hnodes : t.nodes = u.nodes := by
    refine Array.ext hsize fun id h₁ h₂ => ?_
    rw [node_eq t id h₁, node_eq u id h₂, hspan id h₁, hparent id h₁, hchildren id h₁, hlevel id h₁]
  cases t
  cases u
  simp_all

namespace CallTree.Regular
variable {t u : CallTree}

theorem children_eq (h : t.Regular) (id : Nat) :
    t.children id = (List.range t.size).filter fun c => t.parent c = some id := by
  refine (h.sorted id).eq_of_mem_iff (List.pairwise_lt_range.sublist List.filter_sublist) fun c => ?_
  simp only [h.mem_children, List.mem_filter, List.mem_range, decide_eq_true_eq]
  exact ⟨fun hparent => ⟨Rooted.lt_size_of_parent hparent, hparent⟩, And.right⟩

theorem ext (ht : t.Regular) (hu : u.Regular) (hsize : t.size = u.size) (hroot : t.root = u.root)
    (hspan : ∀ id < t.size, t.span id = u.span id)
    (hparent : ∀ id < t.size, t.parent id = u.parent id) : t = u := by
  have hchildren : ∀ id, t.children id = u.children id := by
    intro id
    rw [ht.children_eq, hu.children_eq, ← hsize]
    refine List.filter_congr fun c hc => ?_
    rw [hparent c (List.mem_range.mp hc)]
  have hlevel : ∀ id < t.size, t.level id = u.level id := by
    intro id hid
    induction id, hid using ht.induction with
    | root => rw [ht.level_root, hroot, hu.level_root]
    | call child parent hlink ih =>
      have hlt := Rooted.lt_size_of_parent hlink
      rw [ht.level_of_parent hlink, hu.level_of_parent ((hparent child hlt).symm.trans hlink), ih]
  exact ext_of_forall hsize hroot hspan hparent (fun id _ => hchildren id) hlevel

end CallTree.Regular
end CallTrace
