import CallTrace.Proofs.Record.Size
import CallTrace.Proofs.Reduction.Kept
import CallTrace.Proofs.Window.Run
import CallTrace.Reduction

/-! # Records of reduced traces

What reduction makes of a trace is the trace of some of its spans (`Trace.reduce?_eq_ok`), with
bounds, token and trace id of its own.  All spans of an emitted trace have one key, so token and
trace id together take as many bytes as before, and each of the three times at most nineteen more.
A single span that is left out makes up for them.  If none is left out, the times are the same.  So
the record gets no longer (`Trace.Assembled.recordSize_reduce_le`). -/

namespace CallTrace.Trace
open Json

/-! ### Reduced traces -/

theorem reduce?_eq_ok {depthLimit : Nat} {t r : Trace} (h : t.reduce? depthLimit = .ok r) :
    r = ofSpans r.spans ∧ r.spans ≠ [] ∧ r.spans.Subperm t.spans := by
  obtain ⟨tree, u, f, htree, hgrafted, rfl⟩ := reduce?_eq_ok_iff.mp h
  rw [spans_flatten]
  refine ⟨rfl, ?_, ?_⟩
  · exact mt List.map_eq_nil_iff.mp (List.ne_nil_of_mem
      (hgrafted.regular.mem_bfs_iff.mpr hgrafted.regular.root_lt))
  · rw [← (CallTree.ofSpans_eq_ok_iff.mp htree).2.2]
    exact hgrafted.toEmbeds.spans_subperm hgrafted.regular.toRooted

/-! ### Sizes -/

/-- What the record of a trace takes besides its key and its spans. -/
def timesSize (t : Trace) : Nat :=
  intSize t.startTime.toInt + intSize t.endTime.toInt + intSize t.duration.toInt

theorem timesSize_le (t u : Trace) : t.timesSize ≤ u.timesSize + 57 := by
  have := intSize_toInt_le t.startTime
  have := intSize_toInt_le t.endTime
  have := intSize_toInt_le t.duration
  have := intSize_toInt_pos u.startTime
  have := intSize_toInt_pos u.endTime
  have := intSize_toInt_pos u.duration
  unfold timesSize
  omega

theorem timesSize_of_perm {l l' : List Span} (h : l.Perm l') (hne : l ≠ []) :
    (ofSpans l).timesSize = (ofSpans l').timesSize := by
  obtain ⟨hstart, hend⟩ := times_ofSpans_of_perm h hne
  have hl := timed_ofSpans l
  have hl' := timed_ofSpans l'
  unfold Timed at hl hl'
  rw [timesSize, timesSize, hl, hl', hstart, hend]

theorem recordSize_ofSpans {spans : List Span} (hne : spans ≠ []) :
    (ofSpans spans).recordSize = 120 + textSize (ofSpans spans).windowKey
      + (ofSpans spans).timesSize + Span.listSize spans := by
  have hone : intSize (1 : Int32).toInt = 1 := by decide
  have hcounts : (ofSpans spans).overallRequestCount = 1 ∧ (ofSpans spans).traceCount = 1 := by
    obtain ⟨s, spans, rfl⟩ := List.exists_cons_of_ne_nil hne
    rw [ofSpans_cons]
    exact ⟨rfl, rfl⟩
  have hsize := recordSize_eq (t := ofSpans spans) (by rwa [spans_ofSpans])
  rw [spans_ofSpans, hcounts.1, hcounts.2, hone] at hsize
  rw [hsize, windowKey, textSize_windowKey, timesSize]
  omega

theorem Assembled.recordSize_reduce_le {c : WindowConfig} {t : Trace} (h : t.Assembled c)
    (depthLimit : Nat) : (t.reduce depthLimit).trace.recordSize ≤ t.recordSize := by
  unfold reduce
  split
  · next r hr =>
    obtain ⟨hr_eq, hr_ne, hsub⟩ := reduce?_eq_ok hr
    -- the key is that of the first span, which is one of the spans of `t`
    have hkey : r.windowKey = t.windowKey := by
      obtain ⟨s, spans, e⟩ := List.exists_cons_of_ne_nil hr_ne
      have hs := hsub.subset (e ▸ List.mem_cons_self)
      rw [hr_eq, e, ofSpans_cons]
      exact (h.mem s hs).1
    have hr_size := recordSize_ofSpans hr_ne
    have ht_size := recordSize_ofSpans h.spans_ne
    rw [← hr_eq, hkey] at hr_size
    rw [← h.trace_eq] at ht_size
    have htimes := timesSize_le r t
    obtain ⟨l, hperm, hl⟩ := hsub
    have hspans := Span.listSize_sublist hl
    rw [Span.listSize_perm hperm] at hspans
    show r.recordSize ≤ t.recordSize
    rcases Nat.lt_or_eq_of_le hl.length_le with hlt | heq
    · omega
    · obtain rfl := hl.eq_of_length heq
      have : r.timesSize = t.timesSize := by
        rw [hr_eq, h.trace_eq]
        exact timesSize_of_perm hperm.symm hr_ne
      omega
  · exact Nat.le_refl _

end CallTrace.Trace
