import CallTrace.Proofs.Reduction.Idempotence
import CallTrace.Proofs.Trace.Aggregation

/-! # From spans to a tree and back

Reconstruction and flattening undo each other.  A tree that was rebuilt from spans flattens to the
same spans in another order, so to a trace of the same bounds, duration and
counts (`Trace.extent_ofSpans_of_perm`).

The other way round, a tree is had back from the trace it flattens to, up to the numbers of its
nodes (`CallTree.Renumbers`): every span has the same parent, the same children in the same order
and the same level, and the spans are met in the same order.  That needs no more than a tree whose
links are those that its spans tell (`CallTree.Named`), and no stage of reduction changes
that (`CallTree.exists_stages`).  `CallTree.flatten_round_trip` says both. -/

namespace CallTrace.CallTree
variable {t u : CallTree} {f : Nat → Nat} {spans : List Span}

/-! ### Stages of reduction -/

inductive Stage where
  | truncate (limit : Nat)
  | collapse
deriving DecidableEq, Repr

def stage (t : CallTree) : Stage → Except InvalidTrace CallTree
  | .truncate limit => t.truncate limit
  | .collapse => t.collapse

/-- What a sequence of stages makes of a tree. -/
def stages (t : CallTree) (l : List Stage) : Except InvalidTrace CallTree := l.foldlM stage t

/-- A stage leaves a part of the tree, with the same links between the same spans. -/
theorem Rooted.exists_stage (h : t.Rooted) (x : Stage) :
    ∃ u f, t.stage x = .ok u ∧ Embeds f u t ∧ u.Regular := by
  cases x with
  | truncate limit =>
    obtain ⟨u, f, hu, hf⟩ := h.exists_truncate limit
    exact ⟨u, f, hu, hf.toEmbeds, hf.regular⟩
  | collapse =>
    obtain ⟨u, f, hu, hf⟩ := h.exists_collapse
    exact ⟨u, f, hu, hf.toEmbeds, hf.regular⟩

/-- No stage can fail on a tree with names, and what it leaves has names. -/
theorem exists_stages (h : t.Regular) (hnamed : t.Named) (l : List Stage) :
    ∃ u, t.stages l = .ok u ∧ u.Regular ∧ u.Named := by
  induction l generalizing t with
  | nil => exact ⟨t, rfl, h, hnamed⟩
  | cons x l ih =>
    obtain ⟨u, f, hu, hf, hregular⟩ := h.toRooted.exists_stage x
    obtain ⟨v, hv, hv_regular⟩ := ih hregular (hf.named hregular.toRooted hnamed)
    refine ⟨v, ?_, hv_regular⟩
    rw [stages, List.foldlM_cons, hu]
    exact hv

/-! ### The same tree -/

/-- `u` is `t` with its nodes numbered in another way. -/
structure Renumbers (f : Nat → Nat) (u t : CallTree) : Prop extends Embeds f u t where
  size_eq : u.size = t.size
  children : ∀ id < u.size, t.children (f id) = (u.children id).map f
  level : ∀ id < u.size, t.level (f id) = u.level id
  bfs : t.bfs = u.bfs.map f

theorem Renumbers.spans_eq (h : Renumbers f u t) (hu : u.Rooted) : u.spans = t.spans := by
  rw [h.toEmbeds.spans_eq hu, ← h.bfs, CallTree.spans]

/-- A tree with names is had back from the spans it flattens to. -/
theorem Named.exists_ofSpans_flatten (h : t.Named) (ht : t.Rooted) :
    ∃ u f, ofSpans t.flatten.spans = .ok u ∧ Renumbers f u t ∧ u.Rooted := by
  obtain ⟨u, f, hu, hf, hu_rooted, hchildren⟩ := h.exists_ofSpans_spans ht
  have hbfs := hf.map_bfs hu_rooted ht hchildren
  refine ⟨u, f, by rwa [Trace.spans_flatten], { hf with
    size_eq := ?_
    children := fun id hid => (hchildren id hid).symm
    level := fun id hid => hf.level hu_rooted ht hid
    bfs := hbfs.symm }, hu_rooted⟩
  have hlength := congrArg List.length hbfs
  rwa [List.length_map, hu_rooted.bfs_perm.length_eq, ht.bfs_perm.length_eq, List.length_range,
    List.length_range] at hlength

theorem spans_perm_of_ofSpans (h : ofSpans spans = .ok t) : t.flatten.spans.Perm spans := by
  obtain ⟨hregular, -, hspans⟩ := ofSpans_eq_ok_iff.mp h
  rw [Trace.spans_flatten, ← hspans]
  exact hregular.toRooted.spans_perm

theorem ne_nil_of_ofSpans (h : ofSpans spans = .ok t) : t.flatten.spans ≠ [] := by
  obtain ⟨hregular, -⟩ := ofSpans_eq_ok_iff.mp h
  rw [Trace.spans_flatten, CallTree.spans, hregular.toRooted.bfs_eq]
  exact List.cons_ne_nil _ _

/-! ### There and back -/

/-- A rebuilt tree flattens to the trace of the spans it was rebuilt from, up to their order.  After
any stages of reduction it is had back from the trace it flattens to. -/
theorem flatten_round_trip {tree : CallTree} (h : ofSpans spans = .ok tree) :
    (tree.flatten.spans.Perm spans ∧
      tree.flatten.startTime = (Trace.ofSpans spans).startTime ∧
      tree.flatten.endTime = (Trace.ofSpans spans).endTime ∧
      tree.flatten.duration = (Trace.ofSpans spans).duration ∧
      tree.flatten.overallRequestCount = (Trace.ofSpans spans).overallRequestCount ∧
      tree.flatten.traceCount = (Trace.ofSpans spans).traceCount ∧
      ((∀ s ∈ spans, ∀ s' ∈ spans, s.landscapeToken = s'.landscapeToken) →
        tree.flatten.landscapeToken = (Trace.ofSpans spans).landscapeToken) ∧
      ((∀ s ∈ spans, ∀ s' ∈ spans, s.traceId = s'.traceId) →
        tree.flatten.traceId = (Trace.ofSpans spans).traceId)) ∧
    ∀ l : List Stage, ∃ t, tree.stages l = .ok t ∧
      ∃ u f, ofSpans t.flatten.spans = .ok u ∧ Renumbers f u t ∧ u.spans = t.spans := by
  obtain ⟨hregular, hnamed, -⟩ := ofSpans_eq_ok_iff.mp h
  have hperm := spans_perm_of_ofSpans h
  have hne := ne_nil_of_ofSpans h
  rw [Trace.spans_flatten] at hne
  refine ⟨⟨hperm, ?_⟩, fun l => ?_⟩
  · rw [Trace.spans_flatten] at hperm
    obtain ⟨hstart, hend, hduration, hrequests, htraces⟩ := Trace.extent_ofSpans_of_perm hperm hne
    refine ⟨hstart, hend, hduration, hrequests, htraces, fun hshared => ?_, fun hshared => ?_⟩
    · rw [flatten, Trace.landscapeToken_ofSpans, Trace.landscapeToken_ofSpans,
        Trace.map_head?_of_perm hperm hshared]
    · rw [flatten, Trace.traceId_ofSpans, Trace.traceId_ofSpans,
        Trace.map_head?_of_perm hperm hshared]
  · obtain ⟨t, ht, ht_regular, ht_named⟩ := exists_stages hregular hnamed l
    obtain ⟨u, f, hu, hf, hu_rooted⟩ := ht_named.exists_ofSpans_flatten ht_regular.toRooted
    exact ⟨t, ht, u, f, hu, hf, hf.spans_eq hu_rooted⟩

/-- A loop and a call that was recorded before its caller.  Collapsing the loop puts it first, which
is not the order in which its spans came. -/
theorem flatten_round_trip_callee_first :
    let spans : List Span := [
      { spanId := "c", parentSpanId := "b", operationHash := "C", startTime := 3, endTime := 9 },
      { spanId := "r", operationHash := "R", startTime := 1, endTime := 8 },
      { spanId := "b", parentSpanId := "r", operationHash := "B", startTime := 2, endTime := 7 },
      { spanId := "a", parentSpanId := "r", operationHash := "A" },
      { spanId := "d", parentSpanId := "r", operationHash := "A" }]
    ∃ tree t u f, ofSpans spans = .ok tree ∧ tree.stages [.collapse, .truncate 4] = .ok t ∧
      tree.spans.map Span.spanId = ["r", "b", "a", "d", "c"] ∧
      t.spans.map Span.spanId = ["r", "a", "b", "c"] ∧
      tree.flatten.spans.Perm spans ∧ tree.flatten.duration = (Trace.ofSpans spans).duration ∧
      ofSpans t.flatten.spans = .ok u ∧ Renumbers f u t ∧ u.spans = t.spans := by
  intro spans
  have hids : (ofSpans spans >>= fun tree => tree.stages [.collapse, .truncate 4] >>= fun t =>
      pure (tree.spans.map Span.spanId, t.spans.map Span.spanId))
        = .ok (["r", "b", "a", "d", "c"], ["r", "a", "b", "c"]) := by
    rw [ofSpans_of_passes (by decide)]
    decide +kernel
  obtain ⟨tree, htree, hids⟩ := Except.bind_eq_ok.mp hids
  obtain ⟨t, ht, hids⟩ := Except.bind_eq_ok.mp hids
  obtain ⟨hids, hids'⟩ := Prod.mk.inj (Except.ok.inj hids)
  obtain ⟨⟨hperm, -, -, hduration, -⟩, hback⟩ := flatten_round_trip htree
  obtain ⟨t', ht', u, f, hu, hf, hspans⟩ := hback [.collapse, .truncate 4]
  obtain rfl := Except.ok.inj (ht.symm.trans ht')
  exact ⟨tree, t, u, f, htree, ht, hids, hids', hperm, hduration, hu, hf, hspans⟩

end CallTrace.CallTree
