import CallTrace.Proofs.Reduction.RoundTrip

/-! # Cutting leaves the top of a tree

`CallTree.Top` says what a tree is that was cut at a level: the nodes up to that level and no others,
each with its span, its parent and its level, and with those of its children that are left, in their
order.  Its depth is the level of the cut, or that of the tree where this is less.

Copying stops at the first node below the cut.  That loses nothing, however the nodes are numbered,
since the levels of a rooted tree never go down on the breadth-first walk
(`Rooted.pairwise_level_bfs`, used in `Rooted.exists_truncate`).  The walk over the cut tree is that
over the whole one without the nodes below the cut, so cutting twice makes the very tree, numbers
included, that one cut at the lower of the two levels makes (`Rooted.truncate_truncate`). -/

namespace CallTrace.CallTree
variable {t u : CallTree} {f : Nat → Nat} {spans : List Span} {limit : Nat}

/-- `u` consists of the nodes of `t` up to a level. -/
structure Top (limit : Nat) (f : Nat → Nat) (u t : CallTree) : Prop extends Embeds f u t where
  mem_iff : ∀ x, (∃ id < u.size, f id = x) ↔ x < t.size ∧ t.level x ≤ limit
  level : ∀ id < u.size, u.level id = t.level (f id)
  children : ∀ id < u.size,
    (u.children id).map f = (t.children (f id)).filter fun c => t.level c ≤ limit
  spans_eq : u.spans = (t.bfs.filter fun id => t.level id ≤ limit).map t.span
  depth_eq : u.depth = min t.depth limit

theorem Truncated.top (h : Truncated limit f u t) (ht : t.Rooted) : Top limit f u t := by
  have hu := h.regular.toRooted
  have hlevel : ∀ id < u.size, u.level id = t.level (f id) := fun id hid =>
    (h.toEmbeds.level hu ht hid).symm
  have hmem : ∀ x, (∃ id < u.size, f id = x) ↔ x < t.size ∧ t.level x ≤ limit := by
    intro x
    have hrange : x ∈ (List.range u.size).map f ↔ x ∈ t.bfs.filter fun id => t.level id ≤ limit := by
      rw [h.range_eq]
    rw [List.mem_filter, ht.mem_bfs_iff, decide_eq_true_eq, List.mem_map] at hrange
    simpa only [List.mem_range] using hrange
  refine { h.toEmbeds with
    mem_iff := hmem
    level := hlevel
    children := fun id hid => h.map_children ht hid
    spans_eq := by rw [h.toEmbeds.spans_eq hu, h.map_bfs ht]
    depth_eq := Nat.le_antisymm (depth_le_iff.mpr fun id hid => ?_) ?_ }
  · rw [hlevel id hid]
    exact Nat.le_min.mpr ⟨level_le_depth (h.lt id hid), h.level_le ht hid⟩
  · -- some node has the level that the depth is said to be, and it is left
    obtain ⟨x, hx, hx_level⟩ := ht.exists_level (Nat.min_le_left t.depth limit)
    obtain ⟨id, hid, rfl⟩ := (hmem x).mpr ⟨hx, hx_level ▸ Nat.min_le_right _ _⟩
    rw [← hx_level, ← hlevel id hid]
    exact level_le_depth hid

/-- Cutting twice is cutting once, at the lower level. -/
theorem Rooted.truncate_truncate (h : t.Rooted) (limit lower : Nat) :
    (t.truncate limit >>= truncate lower) = t.truncate (min limit lower) := by
  obtain ⟨u, f, hu, hf⟩ := h.exists_truncate limit
  obtain ⟨v, g, hv, hg⟩ := hf.regular.toRooted.exists_truncate lower
  obtain ⟨w, e, hw, he⟩ := h.exists_truncate (min limit lower)
  have hfg := hf.trans h hg
  have hsame : v = w := hfg.toEmbeds.eq_of_range he.toEmbeds hfg.regular he.regular
    (hfg.range_eq.trans he.range_eq.symm)
  rw [hu, hw, ← hsame]
  exact hv

/-- After any stages a rebuilt tree can be cut at every level, and what is left is its top.  Another
cut makes the tree that one cut at the lower of the two levels would have made. -/
theorem truncate_top {tree : CallTree} (h : ofSpans spans = .ok tree) (l : List Stage) :
    ∃ t, tree.stages l = .ok t ∧ ∀ limit, ∃ u f, t.truncate limit = .ok u ∧ Top limit f u t ∧
      ∀ lower, u.truncate lower = t.truncate (min limit lower) := by
  obtain ⟨hregular, hnamed, -⟩ := ofSpans_eq_ok_iff.mp h
  obtain ⟨t, ht, ht_regular, -⟩ := exists_stages hregular hnamed l
  have ht_rooted := ht_regular.toRooted
  refine ⟨t, ht, fun limit => ?_⟩
  obtain ⟨u, f, hu, hf⟩ := ht_rooted.exists_truncate limit
  refine ⟨u, f, hu, hf.top ht_rooted, fun lower => ?_⟩
  rw [← ht_rooted.truncate_truncate, hu]
  rfl

/-- A collapsed tree, in which the nodes are numbered from the leaves up, with two branches of
different length.  Only the longer one is cut. -/
theorem truncate_top_leaves_first :
    let spans : List Span := [
      { spanId := "d", parentSpanId := "c", operationHash := "D" },
      { spanId := "c", parentSpanId := "b", operationHash := "C" },
      { spanId := "b", parentSpanId := "r", operationHash := "B" },
      { spanId := "r", operationHash := "R" },
      { spanId := "a", parentSpanId := "r", operationHash := "A" },
      { spanId := "e", parentSpanId := "r", operationHash := "A" }]
    ∃ tree t u f, ofSpans spans = .ok tree ∧ tree.stages [.collapse] = .ok t ∧ t.root = 1 ∧
      t.truncate 2 = .ok u ∧ Top 2 f u t ∧ u.depth = 2 ∧
      u.spans.map Span.spanId = ["r", "a", "b", "c"] ∧ u.truncate 1 = t.truncate 1 := by
  intro spans
  have hids : (ofSpans spans >>= fun tree => tree.stages [.collapse] >>= fun t =>
      t.truncate 2 >>= fun u => pure (t.root, t.depth, u.spans.map Span.spanId))
        = .ok (1, 3, ["r", "a", "b", "c"]) := by
    rw [ofSpans_of_passes (by decide)]
    decide +kernel
  obtain ⟨tree, htree, hids⟩ := Except.bind_eq_ok.mp hids
  obtain ⟨t, ht, hids⟩ := Except.bind_eq_ok.mp hids
  obtain ⟨u, hu, hids⟩ := Except.bind_eq_ok.mp hids
  obtain ⟨hroot, hids⟩ := Prod.mk.inj (Except.ok.inj hids)
  obtain ⟨hdepth, hids⟩ := Prod.mk.inj hids
  obtain ⟨t', ht', htop⟩ := truncate_top htree [.collapse]
  obtain rfl := Except.ok.inj (ht.symm.trans ht')
  obtain ⟨u', f, hu', hf, htwice⟩ := htop 2
  obtain rfl := Except.ok.inj (hu.symm.trans hu')
  exact ⟨tree, t, u, f, htree, ht, hroot, hu, hf, by rw [hf.depth_eq, hdepth]; rfl, hids, htwice 1⟩

end CallTrace.CallTree
