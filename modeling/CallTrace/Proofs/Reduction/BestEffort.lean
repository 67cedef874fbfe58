import CallTrace.Proofs.Reduction.Kept
import CallTrace.Proofs.Trace.Aggregation

/-! # Reduction is best effort

Of the four stages of reduction only the first can fail, and its fault is reported together with
the trace as it was (`Trace.reduce_best_effort`).  Where reduction succeeds it invents nothing: what
is left are spans of the trace, with every span all its callers (`UpperPart`), so the times of the
reduced trace lie within those of the trace (`Trace.Within`). -/

namespace CallTrace

/-- Some of the spans of a tree, among them the root and the caller of each of them. -/
structure UpperPart (part whole : List Span) : Prop where
  subperm : part.Subperm whole
  exists_root : ∃ s ∈ part, s.isRoot = true
  root_mem : ∀ s ∈ whole, s.isRoot = true → s ∈ part
  caller_mem : ∀ s ∈ part, s.isRoot = false → ∃ caller ∈ part, s.parentSpanId = caller.spanId

namespace CallTree
variable {t u : CallTree} {f : Nat → Nat}

theorem mem_spans_iff (h : u.Rooted) {s : Span} : s ∈ u.spans ↔ ∃ id < u.size, u.span id = s := by
  rw [h.spans_perm.mem_iff, mem_spans_thaw]

theorem Embeds.upperPart (h : Embeds f u t) (hu : u.Rooted) (ht : t.Named) :
    UpperPart u.spans t.thaw.spans where
  subperm := h.spans_subperm hu
  exists_root := by
    have hroot := ((h.named hu ht).root_iff _ hu.root_lt).mpr rfl
    exact ⟨_, (mem_spans_iff hu).mpr ⟨_, hu.root_lt, rfl⟩, hroot⟩
  root_mem s hs hroot := by
    obtain ⟨id, hid, rfl⟩ := mem_spans_thaw.mp hs
    rw [(ht.root_iff id hid).mp hroot, ← h.root, ← h.span _ hu.root_lt]
    exact (mem_spans_iff hu).mpr ⟨_, hu.root_lt, rfl⟩
  caller_mem s hs hcall := by
    obtain ⟨id, hid, rfl⟩ := (mem_spans_iff hu).mp hs
    have hne : id ≠ u.root := fun heq =>
      Bool.false_ne_true (hcall.symm.trans (((h.named hu ht).root_iff id hid).mpr heq))
    obtain ⟨parent, hparent_lt, hparent⟩ := hu.exists_parent hid hne
    exact ⟨_, (mem_spans_iff hu).mpr ⟨parent, hparent_lt, rfl⟩,
      (h.named hu ht).caller id parent hparent⟩

end CallTree

namespace Trace
variable {t : Trace} {depthLimit : Nat}

/-- The times of the trace are those that its spans add up to. -/
structure Aggregated (t : Trace) : Prop where
  startTime_eq : t.startTime = (ofSpans t.spans).startTime
  endTime_eq : t.endTime = (ofSpans t.spans).endTime
  duration_eq : t.duration = (ofSpans t.spans).duration

structure Within (r t : Trace) : Prop where
  startTime_le : t.startTime ≤ r.startTime
  endTime_le : r.endTime ≤ t.endTime
  duration_le : r.duration ≤ t.duration

theorem within_of_subset {spans : List Span} (h : t.Aggregated) (hsub : spans ⊆ t.spans)
    (hne : spans ≠ []) : (ofSpans spans).Within t := by
  obtain ⟨hstart, hend⟩ := times_ofSpans_of_subset hsub hne
  refine ⟨h.startTime_eq ▸ hstart, h.endTime_eq ▸ hend, ?_⟩
  rw [h.duration_eq, timed_ofSpans, timed_ofSpans]
  exact Timestamp.elapsed_le_elapsed hstart hend

theorem reduce?_eq_error_iff {e : InvalidTrace} :
    t.reduce? depthLimit = .error e ↔ CallTree.ofSpans t.spans = .error e := by
  cases htree : CallTree.ofSpans t.spans with
  | error fault =>
    simp [reduce?, htree, bind, Except.bind]
  | ok tree =>
    obtain ⟨u, -, hu, -⟩ := exists_reduce? depthLimit htree
    simp [hu]

theorem reduce_best_effort (depthLimit : Nat) (t : Trace) :
    (∀ e, t.reduce? depthLimit = .error e ↔ CallTree.ofSpans t.spans = .error e) ∧
      (∀ tree, CallTree.ofSpans t.spans = .ok tree →
        ∃ top kept, tree.truncate depthLimit = .ok top ∧ top.collapse = .ok kept) ∧
      (∀ e, t.reduce? depthLimit = .error e → t.reduce depthLimit = .unchanged t e) ∧
      ∀ r, t.reduce? depthLimit = .ok r →
        UpperPart r.spans t.spans ∧
        (∃ removed, t.reduce depthLimit = .reduced r removed ∧
          removed + r.spans.length = t.spans.length) ∧
        (t.Aggregated → r.Within t) := by
  refine ⟨fun e => reduce?_eq_error_iff, fun tree htree => ?_, fun e he => ?_, fun r hr => ?_⟩
  · obtain ⟨hregular, -⟩ := CallTree.ofSpans_eq_ok_iff.mp htree
    obtain ⟨top, kept, -, htop, hkept, -⟩ := hregular.exists_reduced depthLimit
    exact ⟨top, kept, htop, hkept⟩
  · rw [reduce, he]
  · obtain ⟨tree, u, f, htree, hgrafted, rfl⟩ := reduce?_eq_ok_iff.mp hr
    obtain ⟨-, hnamed, hspans⟩ := CallTree.ofSpans_eq_ok_iff.mp htree
    have hpart := hgrafted.upperPart hgrafted.regular.toRooted hnamed
    rw [hspans] at hpart
    obtain ⟨root, hroot, -⟩ := hpart.exists_root
    refine ⟨by rwa [spans_flatten], ⟨_, by rw [reduce, hr], ?_⟩, fun haggregated => ?_⟩
    · rw [spans_flatten]
      exact Nat.sub_add_cancel hpart.subperm.length_le
    · exact within_of_subset haggregated hpart.subperm.subset (List.ne_nil_of_mem hroot)

/-- One of two iterations is left out, and with it the last two milliseconds. -/
theorem reduce_best_effort_loop :
    let t := ofSpans [{ spanId := "r", operationHash := "R", startTime := 5, endTime := 9 },
      { spanId := "a", parentSpanId := "r", operationHash := "A", startTime := 6, endTime := 7 },
      { spanId := "b", parentSpanId := "r", operationHash := "A", startTime := 7, endTime := 11 }]
    let r := ofSpans [{ spanId := "r", operationHash := "R", startTime := 5, endTime := 9 },
      { spanId := "a", parentSpanId := "r", operationHash := "A", startTime := 6, endTime := 7 }]
    t.reduce? 5 = .ok r ∧ UpperPart r.spans t.spans ∧ r.Within t ∧
      t.duration = 6 ∧ r.duration = 4 := by
  intro t r
  have h : t.reduce? 5 = .ok r := by
    rw [reduce?, spans_ofSpans, CallTree.ofSpans_of_passes (by decide)]
    decide +kernel
  obtain ⟨hpart, -, hwithin⟩ := (reduce_best_effort 5 t).2.2.2 r h
  exact ⟨h, hpart, hwithin ⟨by decide, by decide, by decide⟩, by decide, by decide⟩

end Trace
end CallTrace
