import CallTrace.Proofs.Record.Reduction
import CallTrace.Proofs.Window.Gathering

/-! # How exact the size limit is

The size of a slot is that of the record of its first span, and of every further span with a comma
(`Trace.estimate`).  The times in the header of that record are those of the first span, but the
header of the trace shows other times as more spans come in, and these may take fewer bytes.  So the
estimate may lie above the size of the record, by as many bytes as the times have become shorter
(`Trace.recordSize_add_slack`), which are 56 at most (`Trace.slack_le`).

A slot has overflowed if and only if the estimate for the accepted spans of its address is above the
limit (`Slot.Measured`).  Hence a trace is emitted if and only if its record and these bytes together
keep to the limit (`Assembler.Measures.mem_perform_iff`), and a trace whose record fits may be dropped
(`Assembler.fitting_trace_dropped`). -/

namespace CallTrace

/-- Of some spans those of one key and window. -/
def WindowConfig.group (c : WindowConfig) (key : String) (window : Window) (spans : List Span) :
    List Span :=
  spans.filter fun x => x.windowKey = key ∧ c.windowOf x.startTime = window

namespace Trace
open Json

/-- The record size of a trace, added up over its spans. -/
def estimate : List Span → Nat
  | [] => 0
  | x :: l => (single x).recordSize + Span.listSize l

/-- How many bytes the times of a trace take less than those of its first span. -/
def slack : List Span → Nat
  | [] => 0
  | x :: l => (single x).timesSize - (ofSpans (x :: l)).timesSize

theorem estimate_append_singleton {l : List Span} (hne : l ≠ []) (x : Span) :
    estimate (l ++ [x]) = estimate l + (x.recordSize + 1) := by
  obtain ⟨y, l, rfl⟩ := List.exists_cons_of_ne_nil hne
  rw [List.cons_append, estimate, estimate, Span.listSize_append]
  simp only [Span.listSize]
  omega

theorem estimate_add_timesSize (x : Span) (l : List Span) :
    estimate (x :: l) + (ofSpans (x :: l)).timesSize
      = (ofSpans (x :: l)).recordSize + (single x).timesSize := by
  have hone := recordSize_ofSpans (List.cons_ne_nil x [])
  have hall := recordSize_ofSpans (List.cons_ne_nil x l)
  have hkey : (ofSpans (x :: l)).windowKey = (ofSpans [x]).windowKey := by
    rw [ofSpans_cons, ofSpans_cons]
    rfl
  rw [hkey] at hall
  rw [show ofSpans [x] = single x from rfl] at hone hall
  rw [estimate, hone, hall]
  simp only [Span.listSize]
  omega

/-- The estimate is too high by the slack, if it is too high at all. -/
theorem recordSize_add_slack (l : List Span) :
    (ofSpans l).recordSize + slack l = max (estimate l) (ofSpans l).recordSize := by
  cases l with
  | nil => rw [slack, estimate, Nat.add_zero, Nat.zero_max]
  | cons x l =>
    have := estimate_add_timesSize x l
    rw [slack]
    omega

theorem slack_le (l : List Span) : slack l ≤ 56 := by
  cases l with
  | nil => exact Nat.zero_le _
  | cons x l =>
    have hsub : [x] ⊆ x :: l := List.cons_subset_cons x (List.nil_subset l)
    obtain ⟨hstart, hend⟩ := times_ofSpans_of_subset hsub (List.cons_ne_nil x [])
    have := intSize_toInt_le_of_le hstart
    have hlower : ∀ t u : Timestamp, intSize t.toInt ≤ intSize u.toInt + 19 := fun t u => by
      have := intSize_toInt_le t
      have := intSize_toInt_pos u
      omega
    have := hlower (ofSpans [x]).endTime (ofSpans (x :: l)).endTime
    have := hlower (ofSpans [x]).duration (ofSpans (x :: l)).duration
    rw [slack, show single x = ofSpans [x] from rfl]
    unfold timesSize
    omega

end Trace

namespace Slot
open Trace
variable {limit : Nat} {window : Window} {span : Span} {spans : List Span} {s : Slot} {n : Notice}

/-- A slot has overflowed once the estimate for its spans is above the limit; until then it goes by
the estimate. -/
structure Measured (limit : Nat) (spans : List Span) (s : Slot) : Prop where
  spans_ne : spans ≠ []
  overflowed_iff : s.overflowed = true ↔ limit < estimate spans
  size_eq : s.overflowed = false → s.size = estimate spans

theorem measured_limited (hne : spans ≠ []) (hopen : s.overflowed = false)
    (hsize : s.size = estimate spans) : (s.limited limit window).1.Measured limit spans := by
  unfold limited
  split
  · next hlarge => exact ⟨hne, iff_of_true rfl (hsize ▸ hlarge), fun h => absurd h (by simp)⟩
  · next hsmall => exact ⟨hne, iff_of_false (by simp [hopen]) (hsize ▸ hsmall), fun _ => hsize⟩

theorem measured_first : (first limit window span).1.Measured limit [span] := by
  simp only [first]
  exact measured_limited (List.cons_ne_nil span []) rfl rfl

theorem Measured.extend (h : s.Measured limit spans) :
    (s.extend limit window span).1.Measured limit (spans ++ [span]) := by
  have hne : spans ++ [span] ≠ [] := by simp
  have hgrown := estimate_append_singleton h.spans_ne span
  unfold Slot.extend
  cases hs : s.overflowed with
  | true =>
    have := h.overflowed_iff.mp hs
    rw [if_pos rfl]
    exact ⟨hne, iff_of_true hs (by omega), fun hopen => absurd (hs.symm.trans hopen) (by simp)⟩
  | false =>
    rw [if_neg Bool.false_ne_true]
    refine measured_limited hne rfl ?_
    show s.size + (span.recordSize + 1) = _
    rw [hgrown, h.size_eq hs]

/-! ### Reports -/

theorem eq_of_mem_limited (hn : n ∈ (s.limited limit window).2) :
    n = .oversized s.key window limit ∧ (s.limited limit window).1.overflowed = true := by
  unfold limited at hn ⊢
  split at hn
  · next hlarge =>
    rw [if_pos hlarge]
    exact ⟨List.mem_singleton.mp hn, rfl⟩
  · simp at hn

theorem eq_of_mem_first (hn : n ∈ (first limit window span).2) :
    n = .oversized span.windowKey window limit ∧
      (first limit window span).1.overflowed = true := by
  simp only [first] at hn ⊢
  exact eq_of_mem_limited hn

theorem eq_of_mem_extend (hn : n ∈ (s.extend limit window span).2) :
    n = .oversized s.key window limit ∧ (s.extend limit window span).1.overflowed = true := by
  unfold extend at hn ⊢
  cases hs : s.overflowed with
  | true =>
    rw [hs, if_pos rfl] at hn
    simp at hn
  | false =>
    rw [hs, if_neg Bool.false_ne_true] at hn
    rw [if_neg Bool.false_ne_true]
    exact eq_of_mem_limited hn

/-- Whatever placing a span reports is about the slot of that span. -/
theorem eq_of_mem_place {slots : List Slot} (h : Ordered slots)
    (hn : n ∈ (place limit window span slots).2) :
    n = .oversized span.windowKey window limit ∧ ∃ s ∈ (place limit window span slots).1,
      s.address = (window.start, span.windowKey) ∧ s.overflowed = true := by
  obtain ⟨before, after, -, ⟨-, hplace⟩ | ⟨s, haddress, -, hplace⟩⟩ :=
    place_eq limit window span h
  · rw [hplace] at hn ⊢
    obtain ⟨rfl, hs⟩ := eq_of_mem_first hn
    exact ⟨rfl, _, by simp, address_first, hs⟩
  · rw [hplace] at hn ⊢
    obtain ⟨rfl, hs⟩ := eq_of_mem_extend hn
    exact ⟨congrArg (Notice.oversized · window limit) (congrArg Prod.snd haddress), _, by simp,
      (address_extend s).trans haddress, hs⟩

theorem oversized_of_mem_emit {c : WindowConfig} {key : String} {l : Nat}
    (hn : .oversized key window l ∈ (s.emit c).notices) :
    s.overflowed = false ∧ c.maxRecordSize < s.trace.recordSize ∧ key = s.key ∧
      window = c.windowOf s.start ∧ l = c.maxRecordSize := by
  unfold emit at hn
  cases hs : s.overflowed with
  | true => simp [hs] at hn
  | false =>
    by_cases hfits : s.trace.recordSize ≤ c.maxRecordSize
    · simp [hs, hfits] at hn
    · simp only [hs, hfits, if_false, Bool.false_eq_true, List.mem_singleton,
        Notice.oversized.injEq] at hn
      exact ⟨rfl, Nat.not_le.mp hfits, hn⟩

end Slot

namespace Assembler
open Trace Slot
variable {a : Assembler} {known : List Span}

/-! ### The invariant -/

/-- Every slot goes by the estimate for the accepted spans with its address. -/
def Measures (known : List Span) (a : Assembler) : Prop := ∀ s ∈ a.slots,
  s.Measured a.config.maxRecordSize (known.filter fun x => x.address a.config = s.address)

theorem measures_new (c : WindowConfig) : Measures [] { config := c } := by simp [Measures]

namespace Measures

theorem close (h : Measures known a) (hsound : a.Sound) : Measures known a.close.1 := by
  intro s hs
  rw [close_slots hsound] at hs
  exact h s (List.mem_filter.mp hs).1

theorem accept (h : Measures known a) (hgathers : a.Gathers known) (hsound : a.Sound) {span : Span}
    (hopen : a.time < a.config.closingTime (a.config.windowOf span.startTime)) :
    Measures (known ++ [span]) (a.accept span) :=
  hgathers.forall_accept (P := fun s l => s.Measured a.config.maxRecordSize l) hsound hopen
    measured_first (fun _ _ hs => hs.extend) h

theorem prepare (h : Measures known a) (hgathers : a.Gathers known) (hsound : a.Sound)
    (o : Operation) : Measures (a.remember known o) (a.prepare o) := by
  cases o with
  | push span =>
    rw [prepare_push, remember, late]
    by_cases hclosed : a.phase (a.windowOf span.startTime) = .closed
    · rw [if_pos hclosed, if_pos (decide_eq_true hclosed)]
      exact h
    · rw [if_neg hclosed, if_neg (by simpa using hclosed)]
      rw [phase_eq_closed_iff hsound.valid] at hclosed
      exact h.accept hgathers hsound (Int64.not_le.mp hclosed)
  | advance time => exact h
  | discard => simp [Measures, Assembler.prepare]

section
variable (h : Measures known a) (hgathers : a.Gathers known) (hsound : a.Sound)
  (hsettled : a.Settled)
include h hgathers hsound hsettled

theorem perform (o : Operation) : Measures (a.remember known o) (a.perform o).1 := by
  rw [(perform_eq_close hsound hsettled o).1]
  exact (h.prepare hgathers hsound o).close (hsound.prepare o)

theorem run (ops : List Operation) : Measures (a.accepted known ops) (a.run ops).1 := by
  induction ops generalizing a known with
  | nil => exact h
  | cons o ops ih =>
    exact ih (h.perform hgathers hsound hsettled o) (hgathers.perform hsound hsettled o)
      (hsound.perform hsettled o) (hsettled.perform hsound o)

end

/-! ### What is dropped and what is emitted -/

/-- A slot goes by the estimate for the accepted spans of its key and window. -/
theorem of_mem (h : Measures known a) (hsound : a.Sound) {s : Slot} (hs : s ∈ a.slots) :
    s.Measured a.config.maxRecordSize
      (a.config.group s.key (a.config.windowOf s.start) known) := by
  rw [WindowConfig.group, ← (hsound.slots s hs).filter_address hsound.valid]
  exact h s hs

end Measures

theorem Gathers.trace_eq_of_mem (h : a.Gathers known) (hsound : a.Sound) {s : Slot}
    (hs : s ∈ a.slots) (hopen : s.overflowed = false) :
    s.trace = ofSpans (a.config.group s.key (a.config.windowOf s.start) known) := by
  have hslot := hsound.slots s hs
  rw [WindowConfig.group, ← hslot.filter_address hsound.valid, ← h.spans_eq s hs hopen]
  exact hslot.trace_eq hopen

/-- Every accepted span of a window that was not closed before an operation has a slot when the
operation comes to close windows. -/
theorem Gathers.exists_slot_prepare (h : a.Gathers known) (hsound : a.Sound) {o : Operation}
    {x : Span} (hx : x ∈ a.remember known o)
    (hopen : a.time < a.config.closingTime (a.config.windowOf x.startTime)) :
    ∃ s ∈ (a.prepare o).slots, s.address = x.address a.config := by
  cases o with
  | push span =>
    rw [remember, late] at hx
    rw [prepare_push]
    split
    · next hclosed =>
      rw [if_pos (decide_eq_true hclosed)] at hx
      exact h.covers x hx hopen
    · next hphase =>
      rw [if_neg (by simpa using hphase)] at hx
      exact h.exists_slot_accept hsound hx hopen
  | advance time => exact h.covers x hx hopen
  | discard => simp [remember] at hx

section
variable {o : Operation} {key : String} {window : Window} {limit : Nat}

/-- A trace is reported as too large when windows are closed if its record is. -/
theorem oversized_of_mem_close (hgathers : a.Gathers known) (hsound : a.Sound)
    (hn : .oversized key window limit ∈ a.close.2.notices) :
    limit = a.config.maxRecordSize ∧ a.config.group key window known ≠ [] ∧
      limit < (ofSpans (a.config.group key window known)).recordSize := by
  rw [close_notices hsound, List.mem_flatMap] at hn
  obtain ⟨s, hs, hn⟩ := hn
  have hs := (List.mem_filter.mp hs).1
  obtain ⟨hopen, hlarge, rfl, rfl, rfl⟩ := oversized_of_mem_emit hn
  have htrace := hgathers.trace_eq_of_mem hsound hs hopen
  refine ⟨rfl, ?_, htrace ▸ hlarge⟩
  rw [← spans_ofSpans (a.config.group _ _ _), ← htrace]
  exact (hsound.slots s hs).spans_ne hopen

section
variable (hmeasures : a.Measures known) (hgathers : a.Gathers known) (hsound : a.Sound)
include hmeasures hgathers hsound

/-- A trace is reported as too large when a span is placed if the estimate is. -/
theorem oversized_of_mem_remarks (hn : .oversized key window limit ∈ a.remarks o) :
    limit = a.config.maxRecordSize ∧ a.config.group key window (a.remember known o) ≠ [] ∧
      limit < estimate (a.config.group key window (a.remember known o)) ∧
      ∃ x, o = .push x ∧ x.windowKey = key ∧ a.config.windowOf x.startTime = window := by
  cases o with
  | push x =>
    rw [remarks_push] at hn
    split at hn
    · simp at hn
    · next hphase =>
      obtain ⟨e, s, hs, haddress, hoverflowed⟩ := eq_of_mem_place hsound.ordered hn
      obtain ⟨rfl, rfl, rfl⟩ := Notice.oversized.inj e
      have hprepare : s ∈ (a.prepare (.push x)).slots := by
        rw [prepare_push, if_neg hphase]
        exact hs
      have hmeasured := (hmeasures.prepare hgathers hsound (.push x)).of_mem
        (hsound.prepare (.push x)) hprepare
      have hslot := (hsound.prepare (.push x)).slots s hprepare
      rw [prepare_config] at hmeasured hslot
      have hsame : x.address a.config = s.address := haddress.symm
      obtain ⟨hkey, hwindow⟩ := (hslot.address_eq_iff hsound.valid).mp hsame
      rw [← hkey, ← hwindow] at hmeasured
      exact ⟨rfl, hmeasured.spans_ne, hmeasured.overflowed_iff.mp hoverflowed, x, rfl, rfl, rfl⟩
  | advance time => simp [remarks] at hn
  | discard => simp [remarks] at hn

variable (hsettled : a.Settled)
include hsettled

/-- When a trace is reported as too large, its record and its slack together are above the limit, and
its record alone is unless a span was just pushed to it. -/
theorem Measures.oversized_of_mem_perform
    (hn : .oversized key window limit ∈ (a.perform o).2.notices) :
    let spans := a.config.group key window (a.remember known o)
    limit = a.config.maxRecordSize ∧ spans ≠ [] ∧
      limit < (ofSpans spans).recordSize + slack spans ∧
      ((∀ x, o = .push x → ¬(x.windowKey = key ∧ a.config.windowOf x.startTime = window)) →
        limit < (ofSpans spans).recordSize) := by
  intro spans
  have hslack : (ofSpans spans).recordSize + slack spans = _ := recordSize_add_slack spans
  rw [perform_notices hsound hsettled, List.mem_append] at hn
  rcases hn with hn | hn
  · obtain ⟨rfl, hne, hlarge, x, rfl, hx⟩ :=
      oversized_of_mem_remarks hmeasures hgathers hsound hn
    exact ⟨rfl, hne, hslack ▸ hlarge.trans_le (Nat.le_max_left ..), fun hother => absurd hx (hother x rfl)⟩
  · have hclose := oversized_of_mem_close (hgathers.prepare hsound o) (hsound.prepare o) hn
    rw [prepare_config] at hclose
    obtain ⟨rfl, hne, hlarge⟩ := hclose
    exact ⟨rfl, hne, hslack ▸ hlarge.trans_le (Nat.le_max_right ..), fun _ => hlarge⟩

/-- When a window closes, a trace is emitted if and only if its record and its slack together keep to
the limit. -/
theorem Measures.mem_perform_iff {x : Span} (hx : x ∈ a.remember known o)
    (hopen : a.time < a.config.closingTime (a.config.windowOf x.startTime))
    (hclosed : a.config.closingTime (a.config.windowOf x.startTime) ≤ (a.perform o).1.time) :
    let spans := a.config.group x.windowKey (a.config.windowOf x.startTime) (a.remember known o)
    ofSpans spans ∈ (a.perform o).2.traces
      ↔ (ofSpans spans).recordSize + slack spans ≤ a.config.maxRecordSize := by
  intro spans
  have hprepared := hsound.prepare o
  have hgathered := hgathers.prepare hsound o
  have hmeasured := hmeasures.prepare hgathers hsound o
  rw [(perform_eq_close hsound hsettled o).1, close_time] at hclosed
  rw [(perform_eq_close hsound hsettled o).2, mem_close_traces hprepared, recordSize_add_slack,
    Nat.max_le, prepare_config]
  constructor
  · rintro ⟨s, hs, -, hs_open, hsize, e⟩
    have hspans : (a.prepare o).config.group s.key ((a.prepare o).config.windowOf s.start)
        (a.remember known o) = spans := by
      rw [← spans_ofSpans ((a.prepare o).config.group _ _ _),
        ← hgathered.trace_eq_of_mem hprepared hs hs_open, ← e, spans_ofSpans]
    have hslot := hmeasured.of_mem hprepared hs
    rw [hspans, prepare_config] at hslot
    exact ⟨Nat.not_lt.mp (mt hslot.overflowed_iff.mpr (by simp [hs_open])), e ▸ hsize⟩
  · rintro ⟨hestimate, hsize⟩
    obtain ⟨s, hs, haddress⟩ := hgathers.exists_slot_prepare hsound hx hopen
    have hslot := hprepared.slots s hs
    rw [prepare_config] at hslot
    obtain ⟨hkey, hwindow⟩ := (hslot.address_eq_iff hsound.valid).mp haddress.symm
    have hs_measured := hmeasured.of_mem hprepared hs
    rw [prepare_config, ← hkey, ← hwindow] at hs_measured
    have hs_open : s.overflowed = false := by
      rw [← Bool.not_eq_true, hs_measured.overflowed_iff]
      exact Nat.not_lt.mpr hestimate
    have htrace := hgathered.trace_eq_of_mem hprepared hs hs_open
    rw [prepare_config, ← hkey, ← hwindow] at htrace
    exact ⟨s, hs, hwindow ▸ hclosed, hs_open, htrace ▸ hsize, htrace.symm⟩

end

end

/-- A trace is reported as too large, or not emitted when its window closes, only if its record and its
slack together are above the limit.  The slack is for the span that was pushed last: when windows are
closed, a trace is reported as too large only if its record is. -/
theorem size_limit_within_slack {c : WindowConfig} (h : new? c = .ok a) (ops : List Operation)
    (o : Operation) :
    let b := (a.run ops).1
    let known := a.accepted [] (ops ++ [o])
    (∀ n ∈ (b.perform o).2.notices, n.count.1 = .oversizedRecords → ∃ key window,
      let spans := c.group key window known
      n = .oversized key window c.maxRecordSize ∧ spans ≠ [] ∧
      c.maxRecordSize < (ofSpans spans).recordSize + slack spans ∧
      ((∀ x, o = .push x → ¬(x.windowKey = key ∧ c.windowOf x.startTime = window)) →
        c.maxRecordSize < (ofSpans spans).recordSize)) ∧
    (∀ x ∈ known, b.phase (c.windowOf x.startTime) ≠ .closed →
      (b.perform o).1.phase (c.windowOf x.startTime) = .closed →
      let spans := c.group x.windowKey (c.windowOf x.startTime) known
      (ofSpans spans ∈ (b.perform o).2.traces
        ↔ (ofSpans spans).recordSize + slack spans ≤ c.maxRecordSize)) ∧
    ∀ spans, slack spans ≤ 56 := by
  obtain ⟨hc, rfl⟩ := new?_eq_ok_iff.mp h
  have hsound := (sound_new hc).run (settled_new c) ops
  have hsettled := (settled_new c).run (sound_new hc) ops
  have hgathers := (gathers_new c).run (sound_new hc) (settled_new c) ops
  have hmeasures := (measures_new c).run (gathers_new c) (sound_new hc) (settled_new c) ops
  have hconfig : (run { config := c } ops).1.config = c :=
    run_config (sound_new hc) (settled_new c) ops
  intro b known
  have hknown : known = b.remember (accepted { config := c } [] ops) o := accepted_append ..
  rw [hknown]
  refine ⟨fun n hn hcount => ?_, fun x hx hopen hclosed => ?_, slack_le⟩
  · cases n with
    | oversized key window limit =>
      have hdropped := hmeasures.oversized_of_mem_perform hgathers hsound hsettled hn
      rw [hconfig] at hdropped
      obtain ⟨rfl, hdropped⟩ := hdropped
      exact ⟨key, window, rfl, hdropped⟩
    | _ => exact absurd hcount Counter.noConfusion
  · have hphase : ∀ d : Assembler, d.config = c → (d.phase (c.windowOf x.startTime) = .closed
        ↔ c.closingTime (c.windowOf x.startTime) ≤ d.time) := by
      rintro d rfl
      exact phase_eq_closed_iff hc x.startTime
    rw [ne_eq, hphase b hconfig, Int64.not_le] at hopen
    rw [hphase _ ((perform_config hsound hsettled o).trans hconfig)] at hclosed
    have hemitted := hmeasures.mem_perform_iff hgathers hsound hsettled hx
      (by rwa [hconfig]) (by rwa [hconfig])
    rwa [hconfig] at hemitted

/-- A second span that starts at 999 and not at 1000 makes the header of a trace one byte shorter, so
its record keeps to the limit.  It is dropped, since it was estimated without that. -/
theorem fitting_trace_dropped :
    let x : Span := { traceId := "a", startTime := 1000, endTime := 1005 }
    let y : Span := { traceId := "a", startTime := 999, endTime := 1003 }
    let a : Assembler := { config := { maxRecordSize := 506 } }
    let b := (a.run [.push x, .push y]).1
    (new? a.config = .ok a ∧ a.accepted [] [.push x, .push y] = [x, y]) ∧
    ((ofSpans [x]).recordSize ≤ 506 ∧ (ofSpans [x, y]).recordSize ≤ 506) ∧
    .oversized x.windowKey (a.windowOf x.startTime) 506
      ∈ ((a.run [.push x]).1.perform (.push y)).2.notices ∧
    b.phase (a.windowOf x.startTime) ≠ .closed ∧
    (b.perform (.advance 20000)).1.phase (a.windowOf x.startTime) = .closed ∧
    (b.perform (.advance 20000)).2.traces = [] := by
  decide +kernel

/-- With one byte more the trace is emitted. -/
theorem size_limit_within_slack_one_byte :
    let x : Span := { traceId := "a", startTime := 1000, endTime := 1005 }
    let y : Span := { traceId := "a", startTime := 999, endTime := 1003 }
    let a : Assembler := { config := { maxRecordSize := 507 } }
    slack [x, y] = 1 ∧ (ofSpans [x, y]).recordSize = 506 ∧
      ofSpans [x, y] ∈ ((a.run [.push x, .push y]).1.perform (.advance 20000)).2.traces := by
  intro x y a
  have hnew : new? a.config = .ok a := rfl
  have hlimit : a.config.maxRecordSize = 507 := rfl
  have hrun : (slack [x, y] = 1 ∧ (ofSpans [x, y]).recordSize = 506) ∧
      (x ∈ a.accepted [] ([.push x, .push y] ++ [.advance 20000]) ∧
        a.config.group x.windowKey (a.config.windowOf x.startTime)
          (a.accepted [] ([.push x, .push y] ++ [.advance 20000])) = [x, y]) ∧
      (a.run [.push x, .push y]).1.phase (a.config.windowOf x.startTime) ≠ .closed ∧
      ((a.run [.push x, .push y]).1.perform (.advance 20000)).1.phase
        (a.config.windowOf x.startTime) = .closed := by
    decide +kernel
  clear_value a x y
  obtain ⟨⟨hslack, hsize⟩, ⟨hx, hgroup⟩, hopen, hclosed⟩ := hrun
  obtain ⟨-, hemitted, -⟩ := size_limit_within_slack hnew [.push x, .push y] (.advance 20000)
  have hemitted := hemitted x hx hopen hclosed
  dsimp only at hemitted
  rw [hgroup, hsize, hslack, hlimit] at hemitted
  exact ⟨hslack, hsize, hemitted.mpr (Nat.le_refl _)⟩

end Assembler
end CallTrace
