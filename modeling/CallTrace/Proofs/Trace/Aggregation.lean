import CallTrace.Trace

/-! # What a trace of spans is

A span that is added to a trace widens its bounds and changes nothing else (`Trace.add_eq_widen`).
So a trace folded from spans begins at the earliest start, ends at the latest end and lasts from
the one to the other, and its token and trace id are those of the first span
(`Trace.ofSpans_cons`).  But for these two it does not depend on the order of the spans
(`Trace.extent_ofSpans_of_perm`).

`Trace.aggregation_law` puts this together, for traces folded from spans and for spans added to any
trace that lasts from its start to its end. -/

namespace CallTrace

theorem Timestamp.min_def (a b : Timestamp) : min a b = if a ≤ b then a else b := rfl

theorem Timestamp.max_def (a b : Timestamp) : max a b = if a ≤ b then b else a := rfl

instance : Std.LawfulOrderMax Timestamp where
  max_eq_or a b := by
    rw [Timestamp.max_def]
    grind
  max_le_iff a b c := by
    rw [Timestamp.max_def]
    grind

namespace Trace

/-- Whether a trace lasts from its start to its end. -/
def Timed (t : Trace) : Prop := t.duration = Timestamp.elapsed t.startTime t.endTime

/-- The trace with more spans, and bounds that were widened to two times. -/
def widen (t : Trace) (start stop : Timestamp) (spans : List Span) : Trace :=
  { t with
    startTime := start
    endTime := stop
    duration := Timestamp.elapsed start stop
    spans := t.spans ++ spans }

theorem timed_widen (t : Trace) (start stop : Timestamp) (spans : List Span) :
    (t.widen start stop spans).Timed := rfl

theorem add_eq_widen {t : Trace} (s : Span) (hne : t.spans ≠ []) (h : t.Timed) :
    t.add s = t.widen (min t.startTime s.startTime) (max t.endTime s.endTime) [s] := by
  have hmin : min t.startTime s.startTime
      = if s.startTime < t.startTime then s.startTime else t.startTime := by
    rw [Timestamp.min_def]
    grind
  have hmax : max t.endTime s.endTime
      = if t.endTime < s.endTime then s.endTime else t.endTime := by
    rw [Timestamp.max_def]
    grind
  unfold Timed at h
  rw [hmin, hmax]
  simp only [add, isEmpty, List.isEmpty_iff, if_neg hne, widen, startBy, endBy]
  by_cases hs : s.startTime < t.startTime <;> by_cases he : t.endTime < s.endTime <;>
    simp [hs, he, h]

theorem foldl_add (spans : List Span) {t : Trace} (hne : t.spans ≠ []) (h : t.Timed) :
    spans.foldl add t = t.widen ((spans.map Span.startTime).foldl min t.startTime)
      ((spans.map Span.endTime).foldl max t.endTime) spans := by
  induction spans generalizing t with
  | nil =>
    unfold Timed at h
    simp [widen, ← h]
  | cons s spans ih =>
    rw [List.foldl_cons, add_eq_widen s hne h, ih (by simp [widen]) (timed_widen ..)]
    simp [widen]

/-- The trace of at least one span. -/
theorem ofSpans_cons (s : Span) (spans : List Span) :
    ofSpans (s :: spans) = (single s).widen ((spans.map Span.startTime).foldl min s.startTime)
      ((spans.map Span.endTime).foldl max s.endTime) spans :=
  foldl_add spans (t := single s) (by simp [single]) rfl

theorem timed_ofSpans (spans : List Span) : (ofSpans spans).Timed := by
  cases spans with
  | nil => exact (by decide : (ofSpans []).duration = Timestamp.elapsed 0 0)
  | cons s spans =>
    rw [ofSpans_cons]
    exact timed_widen ..

theorem startTime_ofSpans {spans : List Span} (hne : spans ≠ []) :
    (spans.map Span.startTime).min? = some (ofSpans spans).startTime := by
  obtain ⟨s, spans, rfl⟩ := List.exists_cons_of_ne_nil hne
  rw [ofSpans_cons, List.map_cons, List.min?_cons']
  rfl

theorem endTime_ofSpans {spans : List Span} (hne : spans ≠ []) :
    (spans.map Span.endTime).max? = some (ofSpans spans).endTime := by
  obtain ⟨s, spans, rfl⟩ := List.exists_cons_of_ne_nil hne
  rw [ofSpans_cons, List.map_cons, List.max?_cons']
  rfl

/-- A trace begins with one of its spans. -/
theorem exists_startTime_ofSpans {spans : List Span} (hne : spans ≠ []) :
    ∃ s ∈ spans, s.startTime = (ofSpans spans).startTime :=
  List.mem_map.mp (List.min?_mem (startTime_ofSpans hne))

theorem landscapeToken_ofSpans (spans : List Span) :
    (ofSpans spans).landscapeToken = (spans.head?.map Span.landscapeToken).getD "" := by
  cases spans with
  | nil => rfl
  | cons s spans =>
    rw [ofSpans_cons]
    rfl

theorem traceId_ofSpans (spans : List Span) :
    (ofSpans spans).traceId = (spans.head?.map Span.traceId).getD "" := by
  cases spans with
  | nil => rfl
  | cons s spans =>
    rw [ofSpans_cons]
    rfl

/-- The trace of spans in another order begins and ends at the same times. -/
theorem times_ofSpans_of_perm {l l' : List Span} (h : l.Perm l') (hne : l ≠ []) :
    (ofSpans l).startTime = (ofSpans l').startTime ∧ (ofSpans l).endTime = (ofSpans l').endTime := by
  have hne' : l' ≠ [] := fun e => hne (List.perm_nil.mp (e ▸ h))
  have hstarts : (l.map Span.startTime).min? = (l'.map Span.startTime).min? := by
    apply Option.ext
    intro a
    rw [List.min?_eq_some_iff, List.min?_eq_some_iff]
    simp only [(h.map Span.startTime).mem_iff]
  have hends : (l.map Span.endTime).max? = (l'.map Span.endTime).max? := by
    apply Option.ext
    intro a
    rw [List.max?_eq_some_iff, List.max?_eq_some_iff]
    simp only [(h.map Span.endTime).mem_iff]
  rw [startTime_ofSpans hne, startTime_ofSpans hne'] at hstarts
  rw [endTime_ofSpans hne, endTime_ofSpans hne'] at hends
  exact ⟨Option.some.inj hstarts, Option.some.inj hends⟩

theorem counts_ofSpans {l : List Span} (hne : l ≠ []) :
    (ofSpans l).overallRequestCount = 1 ∧ (ofSpans l).traceCount = 1 := by
  obtain ⟨x, l, rfl⟩ := List.exists_cons_of_ne_nil hne
  rw [ofSpans_cons]
  exact ⟨rfl, rfl⟩

/-- Neither the times nor the counts of a trace depend on the order of its spans. -/
theorem extent_ofSpans_of_perm {l l' : List Span} (h : l.Perm l') (hne : l ≠ []) :
    (ofSpans l).startTime = (ofSpans l').startTime ∧ (ofSpans l).endTime = (ofSpans l').endTime ∧
      (ofSpans l).duration = (ofSpans l').duration ∧
      (ofSpans l).overallRequestCount = (ofSpans l').overallRequestCount ∧
      (ofSpans l).traceCount = (ofSpans l').traceCount := by
  have hne' : l' ≠ [] := fun e => hne (List.perm_nil.mp (e ▸ h))
  obtain ⟨hstart, hend⟩ := times_ofSpans_of_perm h hne
  obtain ⟨hrequests, htraces⟩ := counts_ofSpans hne
  obtain ⟨hrequests', htraces'⟩ := counts_ofSpans hne'
  refine ⟨hstart, hend, ?_, hrequests.trans hrequests'.symm, htraces.trans htraces'.symm⟩
  rw [timed_ofSpans l, timed_ofSpans l', hstart, hend]

/-- What all spans share they share in any order. -/
theorem map_head?_of_perm {α : Type} {l l' : List Span} {f : Span → α} (h : l.Perm l')
    (hshared : ∀ s ∈ l', ∀ s' ∈ l', f s = f s') : l.head?.map f = l'.head?.map f := by
  cases l with
  | nil => rw [List.nil_perm.mp h]
  | cons s l =>
    cases l' with
    | nil => exact absurd (List.perm_nil.mp h) (List.cons_ne_nil s l)
    | cons s' l' =>
      have hs : s ∈ s' :: l' := h.mem_iff.mp List.mem_cons_self
      exact congrArg some (hshared s hs s' List.mem_cons_self)

/-- The trace of some of the spans lies within the trace of all. -/
theorem times_ofSpans_of_subset {l l' : List Span} (h : l ⊆ l') (hne : l ≠ []) :
    (ofSpans l').startTime ≤ (ofSpans l).startTime ∧ (ofSpans l).endTime ≤ (ofSpans l').endTime := by
  have hne' : l' ≠ [] := fun e => hne (List.subset_nil.mp (e ▸ h))
  obtain ⟨hstart, -⟩ := List.min?_eq_some_iff.mp (startTime_ofSpans hne)
  obtain ⟨-, hstarts⟩ := List.min?_eq_some_iff.mp (startTime_ofSpans hne')
  obtain ⟨hend, -⟩ := List.max?_eq_some_iff.mp (endTime_ofSpans hne)
  obtain ⟨-, hends⟩ := List.max?_eq_some_iff.mp (endTime_ofSpans hne')
  exact ⟨hstarts _ (List.map_subset _ h hstart), hends _ (List.map_subset _ h hend)⟩

/-! ### The law of aggregation -/

/-- `u` is `t` after the spans were added: its bounds reach as far as any of them, and nothing else has
changed. -/
structure Widened (t : Trace) (spans : List Span) (u : Trace) : Prop where
  startTime_eq : (t.startTime :: spans.map Span.startTime).min? = some u.startTime
  endTime_eq : (t.endTime :: spans.map Span.endTime).max? = some u.endTime
  timed : u.Timed
  spans_eq : u.spans = t.spans ++ spans
  landscapeToken_eq : u.landscapeToken = t.landscapeToken
  traceId_eq : u.traceId = t.traceId
  overallRequestCount_eq : u.overallRequestCount = t.overallRequestCount
  traceCount_eq : u.traceCount = t.traceCount

theorem widened_foldl_add (spans : List Span) {t : Trace} (hne : t.spans ≠ []) (h : t.Timed) :
    Widened t spans (spans.foldl add t) := by
  rw [foldl_add spans hne h]
  exact ⟨List.min?_cons', List.max?_cons', timed_widen .., rfl, rfl, rfl, rfl, rfl⟩

/-- The trace of some spans begins with the earliest start, ends with the latest end and lasts from
the one to the other, as far as a timestamp can say; the rest is as the spans and the first of them
have it.  In another order the spans give the same but for their order.  Any trace with spans that
lasts from its start to its end is widened in this way by further spans. -/
theorem aggregation_law {spans : List Span} (hne : spans ≠ []) :
    ((spans.map Span.startTime).min? = some (ofSpans spans).startTime ∧
      (spans.map Span.endTime).max? = some (ofSpans spans).endTime ∧
      (ofSpans spans).duration
        = Timestamp.clamp ((ofSpans spans).endTime.toInt - (ofSpans spans).startTime.toInt) ∧
      (ofSpans spans).overallRequestCount = 1 ∧ (ofSpans spans).traceCount = 1 ∧
      (ofSpans spans).spans = spans ∧
      (ofSpans spans).landscapeToken = (spans.head hne).landscapeToken ∧
      (ofSpans spans).traceId = (spans.head hne).traceId) ∧
    (∀ other : List Span, spans.Perm other →
      (ofSpans spans).startTime = (ofSpans other).startTime ∧
      (ofSpans spans).endTime = (ofSpans other).endTime ∧
      (ofSpans spans).duration = (ofSpans other).duration ∧
      (ofSpans spans).overallRequestCount = (ofSpans other).overallRequestCount ∧
      (ofSpans spans).traceCount = (ofSpans other).traceCount ∧
      (ofSpans spans).spans.Perm (ofSpans other).spans) ∧
    ∀ (t : Trace) (more : List Span), t.spans ≠ [] → t.Timed → Widened t more (more.foldl add t) := by
  obtain ⟨hrequests, htraces⟩ := counts_ofSpans hne
  have hhead := List.head?_eq_some_head hne
  refine ⟨⟨startTime_ofSpans hne, endTime_ofSpans hne, timed_ofSpans spans, hrequests, htraces,
    spans_ofSpans spans, ?_, ?_⟩, fun other hperm => ?_, fun t more => widened_foldl_add more⟩
  · rw [landscapeToken_ofSpans, hhead]
    rfl
  · rw [traceId_ofSpans, hhead]
    rfl
  · obtain ⟨hstart, hend, hduration, hcounts⟩ := extent_ofSpans_of_perm hperm hne
    refine ⟨hstart, hend, hduration, hcounts.1, hcounts.2, ?_⟩
    rwa [spans_ofSpans, spans_ofSpans]

/-- A span that ends before it starts, then one over the whole range of timestamps, whose length is
too large for a timestamp.  The second alone widens the trace of the first in both directions. -/
theorem aggregation_law_extreme_times :
    let first : Span := { traceId := "a", spanId := "1", startTime := 5, endTime := -3 }
    let second : Span :=
      { traceId := "b", spanId := "2", startTime := Int64.minValue, endTime := Int64.maxValue }
    (single first).duration = -8 ∧ (ofSpans [first, second]).duration = Int64.maxValue ∧
      (ofSpans [first, second]).traceId = "a" ∧
      (ofSpans [first, second]).endTime = (ofSpans [second, first]).endTime ∧
      Widened (single first) [second] ((single first).add second) := by
  intro first second
  obtain ⟨⟨-, -, hduration, -, -, -, -, hid⟩, hperm, hwidened⟩ :=
    aggregation_law (List.cons_ne_nil first [second])
  exact ⟨by decide, hduration.trans (by decide), hid, (hperm _ (.swap ..)).2.1,
    hwidened (single first) [second] (List.cons_ne_nil _ _) rfl⟩

end Trace
end CallTrace
