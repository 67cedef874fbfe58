import CallTrace.Proofs.Reduction.RoundTrip

/-! # Collapsing groups leaves by their paths

The collapse compares leaves two by two, along their paths up to where these meet.  What it keeps
can be said without that: of all leaves that are reached by the same operations the first in
breadth-first order (`CallTree.Retained`), and the nodes above them.

`CallTree.Grouped` says what is left of a tree: these nodes and no others, with the links, levels and
leaves that they had.  No layer is lost, since a leaf is as deep as the one that stands for it.  Every
tree that is rebuilt from spans, however much it has been reduced, collapses to such a tree
(`CallTree.collapse_grouped`). -/

namespace CallTrace.CallTree
variable {t u : CallTree} {f : Nat → Nat} {spans : List Span} {leaf : Nat}

/-- No leaf before it is reached by the same operations. -/
def Retained (t : CallTree) (leaf : Nat) : Prop :=
  ∃ before after, t.leaves = before ++ leaf :: after ∧
    ∀ x ∈ before, t.hashPath x ≠ t.hashPath leaf

/-- `u` consists of the retained leaves of `t` and the nodes above them. -/
structure Grouped (f : Nat → Nat) (u t : CallTree) : Prop extends Embeds f u t where
  mem_iff : ∀ x, (∃ id < u.size, f id = x) ↔ ∃ leaf, t.Retained leaf ∧ x ∈ t.path leaf
  level : ∀ id < u.size, u.level id = t.level (f id)
  leaf_iff : ∀ id < u.size, id ∈ u.leaves ↔ t.Retained (f id)
  depth_eq : u.depth = t.depth

theorem retained_iff : t.Retained leaf ↔ leaf ∈ t.leaves.firsts t.hashPath := List.mem_firsts_iff.symm

theorem Retained.mem_leaves (h : t.Retained leaf) : leaf ∈ t.leaves :=
  List.firsts_sublist.subset (retained_iff.mp h)

/-- Some retained leaf is reached by the same operations, and so on the same level. -/
theorem Rooted.exists_retained (h : t.Rooted) (hleaf : leaf ∈ t.leaves) :
    ∃ x, t.Retained x ∧ t.hashPath x = t.hashPath leaf ∧ t.level x = t.level leaf := by
  obtain ⟨x, hx, heq⟩ := List.exists_mem_firsts (f := t.hashPath) hleaf
  have hx := retained_iff.mpr hx
  have hlt := (h.mem_leaves.mp hx.mem_leaves).1
  exact ⟨x, hx, heq, by_contra fun hne =>
    h.hashPath_ne hlt (h.mem_leaves.mp hleaf).1 hne heq⟩

theorem Grafted.grouped (hf : Grafted (t.leaves.firsts t.hashPath) f u t) (h : t.Rooted) :
    Grouped f u t := by
  have hu := hf.regular.toRooted
  have hlt : ∀ x ∈ t.leaves.firsts t.hashPath, x < t.size := fun x hx =>
    (h.mem_leaves.mp (List.firsts_sublist.subset hx)).1
  have hlevel : ∀ id < u.size, u.level id = t.level (f id) := fun id hid =>
    (hf.toEmbeds.level hu h hid).symm
  have hmem : ∀ x, (∃ id < u.size, f id = x) ↔ ∃ leaf, t.Retained leaf ∧ x ∈ t.path leaf := by
    intro x
    simp only [← hf.mem_grafted_iff, mem_grafted, retained_iff]
  refine { hf.toEmbeds with
    mem_iff := hmem
    level := hlevel
    leaf_iff := fun id hid => ?_
    depth_eq := Nat.le_antisymm (depth_le_iff.mpr fun id hid => ?_)
      (depth_le_iff.mpr fun id hid => ?_) }
  · rw [retained_iff]
    refine hf.mem_leaves h hlt (fun x hx y hy hpath => ?_) hid
    exact h.eq_of_mem_path_of_leaf (h.mem_leaves.mp (List.firsts_sublist.subset hx)).2 hpath (hlt y hy)
  · rw [hlevel id hid]
    exact level_le_depth (hf.lt id hid)
  · -- below every node is a leaf, and the one that stands for it is as deep
    obtain ⟨leaf, hleaf, hpath⟩ := h.exists_leaf hid
    obtain ⟨x, hx, -, hsame⟩ := h.exists_retained hleaf
    obtain ⟨k, hk, rfl⟩ := (hmem x).mpr ⟨x, hx, t.mem_path_self x⟩
    calc t.level id ≤ t.level leaf := h.level_le_of_mem_path (h.mem_leaves.mp hleaf).1 hpath
      _ = u.level k := by rw [← hsame, hlevel k hk]
      _ ≤ u.depth := level_le_depth hk

/-- After any stages a rebuilt tree collapses to its retained leaves and what is above them.  So two
leaves can as well be compared by their paths as a whole. -/
theorem collapse_grouped {tree : CallTree} (h : ofSpans spans = .ok tree) (l : List Stage) :
    ∃ t, tree.stages l = .ok t ∧
      (∃ u f, t.collapse = .ok u ∧ Grouped f u t) ∧
      (∃ kept, t.keptLeaves = .ok kept ∧ kept.Sublist t.leaves ∧
        ∀ leaf, leaf ∈ kept ↔ t.Retained leaf) ∧
      ∀ x < t.size, ∀ y < t.size, x ≠ y → t.level x = t.level y →
        t.sameCalls x y = .ok (decide (t.hashPath x = t.hashPath y)) := by
  obtain ⟨hregular, hnamed, -⟩ := ofSpans_eq_ok_iff.mp h
  obtain ⟨t, ht, ht_regular, -⟩ := exists_stages hregular hnamed l
  have ht_rooted := ht_regular.toRooted
  obtain ⟨u, f, hu, hf⟩ := ht_rooted.exists_collapse
  exact ⟨t, ht, ⟨u, f, hu, hf.grouped ht_rooted⟩,
    ⟨_, ht_rooted.keptLeaves_eq, List.firsts_sublist, fun leaf => retained_iff.symm⟩,
    fun x hx y hy => ht_rooted.sameCalls_eq hx hy⟩

/-- Three calls of one operation differ in what they call, and below the cut they do not. -/
theorem collapse_grouped_after_cut :
    let spans : List Span := [
      { spanId := "r", operationHash := "R" },
      { spanId := "a", parentSpanId := "r", operationHash := "A" },
      { spanId := "b", parentSpanId := "r", operationHash := "A" },
      { spanId := "c", parentSpanId := "r", operationHash := "A" },
      { spanId := "x", parentSpanId := "a", operationHash := "X" },
      { spanId := "y", parentSpanId := "b", operationHash := "X" },
      { spanId := "z", parentSpanId := "c", operationHash := "Z" }]
    ∃ tree top u f v g, ofSpans spans = .ok tree ∧
      tree.collapse = .ok u ∧ Grouped f u tree ∧
      u.spans.map Span.spanId = ["r", "a", "c", "x", "z"] ∧
      tree.stages [.truncate 1] = .ok top ∧ top.collapse = .ok v ∧ Grouped g v top ∧
      v.spans.map Span.spanId = ["r", "a"] ∧ v.depth = top.depth := by
  intro spans
  have hids : (ofSpans spans >>= fun tree => tree.collapse >>= fun u =>
      tree.stages [.truncate 1] >>= fun top => top.collapse >>= fun v =>
        pure (u.spans.map Span.spanId, v.spans.map Span.spanId))
      = .ok (["r", "a", "c", "x", "z"], ["r", "a"]) := by
    rw [ofSpans_of_passes (by decide)]
    decide +kernel
  obtain ⟨tree, htree, hids⟩ := Except.bind_eq_ok.mp hids
  obtain ⟨u, hu, hids⟩ := Except.bind_eq_ok.mp hids
  obtain ⟨top, htop, hids⟩ := Except.bind_eq_ok.mp hids
  obtain ⟨v, hv, hids⟩ := Except.bind_eq_ok.mp hids
  obtain ⟨hids, hids'⟩ := Prod.mk.inj (Except.ok.inj hids)
  obtain ⟨tree', htree', ⟨u', f, hu', hf⟩, -⟩ := collapse_grouped htree []
  obtain ⟨top', htop', ⟨v', g, hv', hg⟩, -⟩ := collapse_grouped htree [.truncate 1]
  obtain rfl : tree = tree' := Except.ok.inj htree'
  obtain rfl := Except.ok.inj (hu.symm.trans hu')
  obtain rfl := Except.ok.inj (htop.symm.trans htop')
  obtain rfl := Except.ok.inj (hv.symm.trans hv')
  exact ⟨tree, top, u, f, v, g, htree, hu, hf, hids, htop, hv, hg, hids', hg.depth_eq⟩

end CallTrace.CallTree
