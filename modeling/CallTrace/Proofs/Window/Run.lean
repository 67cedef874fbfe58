import CallTrace.Proofs.Trace.Aggregation
import CallTrace.Proofs.Window.Slots

/-! # Runs of an assembler

An assembler is driven by operations: spans are pushed, event time is advanced, slots are
discarded.  `Assembler.run` performs a list of them and gathers what is emitted.

Every operation first changes the slots and the watermark (`Assembler.prepare`) and then closes
windows, so what it does to slots and traces is what `Assembler.close` does then
(`Assembler.perform_eq_close`).  Two invariants carry over every run: the assembler is sound,
which says what slots hold (`Assembler.Sound`), and settled, which says that no slot of a closed
window is left (`Assembler.Settled`).  What is emitted is the trace of a sound slot
(`Assembler.mem_run_traces`). -/

namespace CallTrace

inductive Operation where
  | push (span : Span)
  | advance (time : Timestamp)
  | discard
deriving DecidableEq, Repr

/-! ### Emissions -/

namespace Emission

@[simp] theorem traces_append (e f : Emission) : (e ++ f).traces = e.traces ++ f.traces := rfl

@[simp] theorem notices_append (e f : Emission) : (e ++ f).notices = e.notices ++ f.notices := rfl

@[simp] theorem append_empty (e : Emission) : e ++ ({} : Emission) = e := by
  show Emission.mk (e.traces ++ []) (e.notices ++ []) = e
  rw [List.append_nil, List.append_nil]

@[simp] theorem empty_append (e : Emission) : ({} : Emission) ++ e = e := rfl

theorem append_assoc (e f g : Emission) : e ++ f ++ g = e ++ (f ++ g) := by
  show Emission.mk (e.traces ++ f.traces ++ g.traces) (e.notices ++ f.notices ++ g.notices) = _
  rw [List.append_assoc, List.append_assoc]
  rfl

theorem traces_foldl (l : List Emission) (e : Emission) :
    (l.foldl (· ++ ·) e).traces = e.traces ++ l.flatMap Emission.traces := by
  induction l generalizing e with
  | nil => simp
  | cons f l ih => simp [ih]

theorem notices_foldl (l : List Emission) (e : Emission) :
    (l.foldl (· ++ ·) e).notices = e.notices ++ l.flatMap Emission.notices := by
  induction l generalizing e with
  | nil => simp
  | cons f l ih => simp [ih]

end Emission

/-! ### Sound slots -/

/-- What a slot holds: spans of its key and window, folded into a trace. -/
structure Slot.Sound (c : WindowConfig) (s : Slot) : Prop where
  start_eq : (c.windowOf s.start).start = s.start
  mem : ∀ x ∈ s.trace.spans, x.windowKey = s.key ∧ c.windowOf x.startTime = c.windowOf s.start
  trace_eq : s.overflowed = false → s.trace = Trace.ofSpans s.trace.spans
  spans_ne : s.overflowed = false → s.trace.spans ≠ []

/-- What a trace is when it is emitted. -/
structure Trace.Assembled (c : WindowConfig) (t : Trace) : Prop where
  spans_ne : t.spans ≠ []
  trace_eq : t = Trace.ofSpans t.spans
  mem : ∀ x ∈ t.spans, x.windowKey = t.windowKey ∧ c.windowOf x.startTime = c.windowOf t.startTime
  size_le : t.recordSize ≤ c.maxRecordSize

namespace Slot
variable {c : WindowConfig} {s : Slot} {span : Span}

theorem Sound.limited {limit : Nat} {window : Window} (h : s.Sound c) :
    (s.limited limit window).1.Sound c := by
  unfold Slot.limited
  split
  · exact ⟨h.start_eq, by simp, by simp, by simp⟩
  · exact h

theorem sound_first (hc : c.Valid) {limit : Nat} :
    (first limit (c.windowOf span.startTime) span).1.Sound c := by
  refine Sound.limited ⟨?_, ?_, fun _ => rfl, fun _ => ?_⟩
  · rw [WindowConfig.windowOf_start hc]
  · intro x hx
    rw [Trace.spans_add] at hx
    obtain rfl : x = span := List.mem_singleton.mp hx
    exact ⟨rfl, (WindowConfig.windowOf_start hc _).symm⟩
  · simp

theorem Sound.extend {limit : Nat} {window : Window} (h : s.Sound c) (hkey : s.key = span.windowKey)
    (hstart : c.windowOf span.startTime = c.windowOf s.start) :
    (s.extend limit window span).1.Sound c := by
  unfold Slot.extend
  split
  · exact h
  · next hopen =>
    have hopen : s.overflowed = false := by simpa using hopen
    refine Sound.limited ⟨h.start_eq, ?_, fun _ => ?_, fun _ => ?_⟩
    · intro x hx
      rw [Trace.spans_add] at hx
      rcases List.mem_append.mp hx with hx | hx
      · exact h.mem x hx
      · obtain rfl : x = span := List.mem_singleton.mp hx
        exact ⟨hkey.symm, hstart⟩
    · show s.trace.add span = Trace.ofSpans (s.trace.add span).spans
      rw [Trace.spans_add, Trace.ofSpans, List.foldl_append, ← Trace.ofSpans,
        ← h.trace_eq hopen]
      rfl
    · simp

theorem Sound.place (hc : c.Valid) {limit : Nat} {slots : List Slot}
    (h : ∀ s ∈ slots, s.Sound c) :
    ∀ s ∈ (place limit (c.windowOf span.startTime) span slots).1, s.Sound c := by
  intro s hs
  rcases mem_place hs with hs | rfl | ⟨t, ht, hstart, hkey, rfl⟩
  · exact h s hs
  · exact sound_first hc
  · refine (h t ht).extend hkey ?_
    rw [hstart, WindowConfig.windowOf_start hc]

/-- The windows of slots after a span was placed are those from before, and that of the span. -/
theorem forall_windowOf_place (hc : c.Valid) {limit : Nat} {slots : List Slot} {P : Window → Prop}
    (hslots : ∀ s ∈ slots, P (c.windowOf s.start)) (hspan : P (c.windowOf span.startTime)) :
    ∀ s ∈ (place limit (c.windowOf span.startTime) span slots).1, P (c.windowOf s.start) := by
  have same_window : ∀ {start : Timestamp}, start = (c.windowOf span.startTime).start →
      P (c.windowOf start) := by
    rintro _ rfl
    rwa [WindowConfig.windowOf_start hc]
  intro s hs
  rcases mem_place hs with hs | rfl | ⟨t, -, hstart, -, rfl⟩
  · exact hslots s hs
  · exact same_window first_start
  · exact same_window ((extend_start t).trans hstart)

/-- The trace of a slot starts in the window of the slot. -/
theorem Sound.windowOf_startTime (h : s.Sound c) (hopen : s.overflowed = false) :
    c.windowOf s.trace.startTime = c.windowOf s.start := by
  obtain ⟨x, hx, e⟩ := Trace.exists_startTime_ofSpans (h.spans_ne hopen)
  rw [h.trace_eq hopen, ← e]
  exact (h.mem x hx).2

theorem Sound.windowKey_trace (h : s.Sound c) (hopen : s.overflowed = false) :
    s.trace.windowKey = s.key := by
  obtain ⟨x, spans, e⟩ := List.exists_cons_of_ne_nil (h.spans_ne hopen)
  have hx := (h.mem x (by simp [e])).1
  rw [h.trace_eq hopen, e, Trace.ofSpans_cons]
  exact hx

theorem Sound.assembled (h : s.Sound c) (hopen : s.overflowed = false)
    (hsize : s.trace.recordSize ≤ c.maxRecordSize) : s.trace.Assembled c where
  spans_ne := h.spans_ne hopen
  trace_eq := h.trace_eq hopen
  mem x hx := by
    rw [h.windowOf_startTime hopen, h.windowKey_trace hopen]
    exact h.mem x hx
  size_le := hsize

/-- A slot passes on its trace or nothing. -/
theorem mem_emit {t : Trace} :
    t ∈ (s.emit c).traces
      ↔ s.overflowed = false ∧ s.trace.recordSize ≤ c.maxRecordSize ∧ t = s.trace := by
  unfold emit
  cases s.overflowed with
  | true => simp
  | false => by_cases h : s.trace.recordSize ≤ c.maxRecordSize <;> simp [h]

end Slot

namespace Assembler

/-! ### The time of an assembler -/

/-- The watermark; without one it is as if the least time had been seen. -/
def time (a : Assembler) : Timestamp := a.watermark.getD Int64.minValue

@[simp] theorem time_raise (a : Assembler) (t : Timestamp) :
    (a.raise t).time = max a.time t := by
  unfold time raise
  cases a.watermark with
  | some m => rfl
  | none =>
    rw [Timestamp.max_def, if_pos (by simp)]
    rfl

theorem phase_eq_closed_iff {a : Assembler} (hc : a.config.Valid) (t : Timestamp) :
    a.phase (a.windowOf t) = .closed ↔ a.config.closingTime (a.windowOf t) ≤ a.time := by
  unfold phase WindowConfig.phase time
  cases a.watermark with
  | none =>
    have := WindowConfig.minValue_lt_closingTime hc t
    simpa [windowOf] using (Int64.not_le (n := a.config.closingTime (a.config.windowOf t))).mpr this
  | some m =>
    by_cases h : a.config.closingTime (a.windowOf t) ≤ m
    · simp [h]
    · by_cases h' : (a.windowOf t).stop ≤ m <;> simp [h, h']

theorem expired_iff {a : Assembler} (hc : a.config.Valid) (s : Slot) :
    a.expired s = true ↔ a.config.closingTime (a.config.windowOf s.start) ≤ a.time := by
  unfold expired
  rw [decide_eq_true_iff]
  exact phase_eq_closed_iff hc s.start

/-! ### Invariants -/

structure Sound (a : Assembler) : Prop where
  valid : a.config.Valid
  ordered : Slot.Ordered a.slots
  slots : ∀ s ∈ a.slots, s.Sound a.config

/-- No slot of a closed window is left. -/
def Settled (a : Assembler) : Prop :=
  ∀ s ∈ a.slots, a.time < a.config.closingTime (a.config.windowOf s.start)

theorem new?_eq_ok_iff {c : WindowConfig} {a : Assembler} :
    new? c = .ok a ↔ c.Valid ∧ a = { config := c } := by
  rw [← WindowConfig.check_eq_ok_iff]
  unfold new?
  cases c.check with
  | ok u => simp [eq_comm]
  | error e => simp

theorem sound_new {c : WindowConfig} (hc : c.Valid) : Sound { config := c } :=
  ⟨hc, List.Pairwise.nil, by simp⟩

theorem settled_new (c : WindowConfig) : Settled { config := c } := by simp [Settled]

/-! ### Closing windows -/

/-- Of two slots the one with the earlier window expires first. -/
theorem Sound.pairwise_expired {a : Assembler} (h : a.Sound) :
    a.slots.Pairwise fun s t => a.expired t → a.expired s := by
  refine h.ordered.imp_of_mem fun {s t} hs ht hst hexp => ?_
  rw [expired_iff h.valid] at hexp ⊢
  refine Int64.le_trans (WindowConfig.closingTime_le_closingTime h.valid ?_) hexp
  rw [(h.slots s hs).start_eq, (h.slots t ht).start_eq]
  unfold Slot.Before at hst
  grind

theorem close_slots {a : Assembler} (h : a.Sound) :
    a.close.1.slots = a.slots.filter fun s => !a.expired s :=
  List.dropWhile_eq_filter_of_pairwise h.pairwise_expired

theorem close_traces {a : Assembler} (h : a.Sound) :
    a.close.2.traces = (a.slots.filter a.expired).flatMap fun s => (s.emit a.config).traces := by
  rw [← List.takeWhile_eq_filter_of_pairwise h.pairwise_expired]
  simp [close, Emission.traces_foldl, List.flatMap_map]

theorem close_notices {a : Assembler} (h : a.Sound) :
    a.close.2.notices = (a.slots.filter a.expired).flatMap fun s => (s.emit a.config).notices := by
  rw [← List.takeWhile_eq_filter_of_pairwise h.pairwise_expired]
  simp [close, Emission.notices_foldl, List.flatMap_map]

@[simp] theorem close_config (a : Assembler) : a.close.1.config = a.config := rfl

@[simp] theorem close_time (a : Assembler) : a.close.1.time = a.time := rfl

theorem Sound.close {a : Assembler} (h : a.Sound) : a.close.1.Sound where
  valid := h.valid
  ordered := by
    rw [close_slots h]
    exact h.ordered.filter _
  slots s hs := by
    rw [close_slots h] at hs
    exact h.slots s (List.mem_filter.mp hs).1

theorem Sound.settled_close {a : Assembler} (h : a.Sound) : a.close.1.Settled := by
  intro s hs
  rw [close_slots h, List.mem_filter] at hs
  have := mt (expired_iff h.valid s).mpr (by simpa using hs.2)
  simpa using this

/-- What is emitted are the traces of the expired slots, unless they are too large. -/
theorem mem_close_traces {a : Assembler} (h : a.Sound) {t : Trace} :
    t ∈ a.close.2.traces
      ↔ ∃ s ∈ a.slots, a.config.closingTime (a.config.windowOf s.start) ≤ a.time ∧
        s.overflowed = false ∧ s.trace.recordSize ≤ a.config.maxRecordSize ∧ t = s.trace := by
  rw [close_traces h, List.mem_flatMap]
  simp only [List.mem_filter, expired_iff h.valid, Slot.mem_emit, and_assoc]

/-! ### Operations -/

/-- The assembler with a span in its slot, before windows are closed. -/
def accept (a : Assembler) (span : Span) : Assembler :=
  { a.raise span.startTime with
    slots := (Slot.place a.config.maxRecordSize (a.windowOf span.startTime) span a.slots).1 }

@[simp] theorem time_accept (a : Assembler) (span : Span) :
    (a.accept span).time = max a.time span.startTime := time_raise a span.startTime

/-- What an operation does before windows are closed. -/
def prepare (a : Assembler) : Operation → Assembler
  | .push span =>
    if a.phase (a.windowOf span.startTime) = .closed then a else a.accept span
  | .advance time => a.raise time
  | .discard => { a with slots := [] }

theorem prepare_push (a : Assembler) (span : Span) :
    a.prepare (.push span)
      = if a.phase (a.windowOf span.startTime) = .closed then a else a.accept span := rfl

def perform (a : Assembler) : Operation → Assembler × Emission
  | .push span => a.push span
  | .advance time => a.advance time
  | .discard => (a.discard.1, { notices := a.discard.2.2 })

/-- Performs operations one after the other and gathers what they emit. -/
def run (a : Assembler) : List Operation → Assembler × Emission
  | [] => (a, {})
  | o :: ops => (((a.perform o).1.run ops).1, (a.perform o).2 ++ ((a.perform o).1.run ops).2)

theorem run_singleton (a : Assembler) (o : Operation) : a.run [o] = a.perform o := by
  simp [run]

theorem run_append (a : Assembler) (ops ops' : List Operation) :
    a.run (ops ++ ops')
      = (((a.run ops).1.run ops').1, (a.run ops).2 ++ ((a.run ops).1.run ops').2) := by
  induction ops generalizing a with
  | nil => rfl
  | cons o ops ih => rw [List.cons_append, run, run, ih, Emission.append_assoc]

theorem push_of_closed {a : Assembler} {span : Span}
    (h : a.phase (a.windowOf span.startTime) = .closed) :
    a.push span = (a, { notices := [.late span (a.windowOf span.startTime)] }) := by
  unfold push
  rw [if_pos h]

theorem push_of_open {a : Assembler} {span : Span}
    (h : a.phase (a.windowOf span.startTime) ≠ .closed) :
    a.push span = ((a.accept span).close.1,
      { notices :=
          (Slot.place a.config.maxRecordSize (a.windowOf span.startTime) span a.slots).2 }
        ++ (a.accept span).close.2) := by
  unfold push
  rw [if_neg h]
  rfl

/-- Closing changes nothing where no slot has expired. -/
theorem close_of_settled {a : Assembler} (h : a.Sound) (hs : a.Settled) : a.close = (a, {}) := by
  have none_expired : ∀ s ∈ a.slots, ¬a.expired s = true := by
    intro s hmem
    rw [expired_iff h.valid]
    exact Int64.not_le.mpr (hs s hmem)
  have hfilter : a.slots.takeWhile a.expired = [] := by
    rw [List.takeWhile_eq_filter_of_pairwise h.pairwise_expired, List.filter_eq_nil_iff]
    exact none_expired
  have hslots : a.slots.dropWhile a.expired = a.slots := by
    rw [List.dropWhile_eq_filter_of_pairwise h.pairwise_expired, List.filter_eq_self]
    simpa using none_expired
  simp [close, hfilter, hslots]

theorem perform_eq_close {a : Assembler} (h : a.Sound) (hs : a.Settled) (o : Operation) :
    (a.perform o).1 = (a.prepare o).close.1 ∧
      (a.perform o).2.traces = (a.prepare o).close.2.traces := by
  cases o with
  | push span =>
    rw [prepare_push, show a.perform (.push span) = a.push span from rfl]
    split
    · next hlate =>
      rw [push_of_closed hlate, close_of_settled h hs]
      exact ⟨rfl, rfl⟩
    · next hopen =>
      rw [push_of_open hopen]
      exact ⟨rfl, rfl⟩
  | advance time => exact ⟨rfl, rfl⟩
  | discard => exact ⟨rfl, rfl⟩

/-- What an operation has to say before windows are closed. -/
def remarks (a : Assembler) : Operation → List Notice
  | .push span =>
    if a.phase (a.windowOf span.startTime) = .closed then [.late span (a.windowOf span.startTime)]
    else (Slot.place a.config.maxRecordSize (a.windowOf span.startTime) span a.slots).2
  | .advance _ => []
  | .discard => [.discarded a.openWindows]

theorem remarks_push (a : Assembler) (span : Span) :
    a.remarks (.push span)
      = if a.phase (a.windowOf span.startTime) = .closed then
          [.late span (a.windowOf span.startTime)]
        else (Slot.place a.config.maxRecordSize (a.windowOf span.startTime) span a.slots).2 := rfl

theorem perform_notices {a : Assembler} (h : a.Sound) (hs : a.Settled) (o : Operation) :
    (a.perform o).2.notices = a.remarks o ++ (a.prepare o).close.2.notices := by
  cases o with
  | push span =>
    rw [prepare_push, remarks_push, show a.perform (.push span) = a.push span from rfl]
    split
    · next hlate =>
      rw [push_of_closed hlate, close_of_settled h hs]
      rfl
    · next hopen =>
      rw [push_of_open hopen]
      rfl
  | advance time => rfl
  | discard => rfl

theorem Sound.accept {a : Assembler} (h : a.Sound) (span : Span) : (a.accept span).Sound where
  valid := h.valid
  ordered := Slot.ordered_place h.ordered
  slots := Slot.Sound.place h.valid h.slots

theorem Sound.prepare {a : Assembler} (h : a.Sound) (o : Operation) : (a.prepare o).Sound := by
  cases o with
  | push span =>
    rw [prepare_push]
    split
    · exact h
    · exact h.accept span
  | advance time => exact ⟨h.valid, h.ordered, h.slots⟩
  | discard => exact ⟨h.valid, List.Pairwise.nil, by simp [Assembler.prepare]⟩

theorem prepare_config (a : Assembler) (o : Operation) : (a.prepare o).config = a.config := by
  cases o with
  | push span =>
    rw [prepare_push]
    split <;> rfl
  | advance time => rfl
  | discard => rfl

/-- Event time never goes back. -/
theorem time_le_prepare (a : Assembler) (o : Operation) : a.time ≤ (a.prepare o).time := by
  have le_max : ∀ t : Timestamp, a.time ≤ max a.time t := by
    intro t
    rw [Timestamp.max_def]
    grind
  cases o with
  | push span =>
    rw [prepare_push]
    split
    · exact Int64.le_rfl
    · exact (time_raise a span.startTime).symm ▸ le_max _
  | advance time => exact (time_raise a time).symm ▸ le_max _
  | discard => exact Int64.le_rfl

/-- A span of a window that stays open is accepted, and nothing is closed. -/
theorem push_of_settled_accept {a : Assembler} (h : a.Sound) {span : Span}
    (hopen : a.time < a.config.closingTime (a.config.windowOf span.startTime))
    (hs : (a.accept span).Settled) :
    a.push span = (a.accept span, { notices :=
      (Slot.place a.config.maxRecordSize (a.windowOf span.startTime) span a.slots).2 }) := by
  have hphase : a.phase (a.windowOf span.startTime) ≠ .closed := by
    rw [ne_eq, phase_eq_closed_iff h.valid]
    exact Int64.not_le.mpr hopen
  rw [push_of_open hphase, close_of_settled (h.accept span) hs, Emission.append_empty]

/-- No operation puts a span into a window that is closed already. -/
theorem lt_closingTime_of_mem_prepare {a : Assembler} (h : a.Sound) (hs : a.Settled)
    (o : Operation) : ∀ s ∈ (a.prepare o).slots,
      a.time < a.config.closingTime (a.config.windowOf s.start) := by
  intro s hmem
  cases o with
  | push span =>
    rw [prepare_push] at hmem
    split at hmem
    · exact hs s hmem
    · next hopen =>
      rw [phase_eq_closed_iff h.valid, Int64.not_le] at hopen
      exact Slot.forall_windowOf_place (P := fun w => a.time < a.config.closingTime w) h.valid hs
        hopen s hmem
  | advance time => exact hs s hmem
  | discard => simp [prepare] at hmem

/-! ### One operation and whole runs -/

section
variable {a : Assembler} (h : a.Sound) (hs : a.Settled)
include h hs

theorem Sound.perform (o : Operation) : (a.perform o).1.Sound := by
  rw [(perform_eq_close h hs o).1]
  exact (h.prepare o).close

theorem Settled.perform (o : Operation) : (a.perform o).1.Settled := by
  rw [(perform_eq_close h hs o).1]
  exact (h.prepare o).settled_close

theorem perform_config (o : Operation) : (a.perform o).1.config = a.config := by
  rw [(perform_eq_close h hs o).1, close_config, prepare_config]

theorem time_le_perform (o : Operation) : a.time ≤ (a.perform o).1.time := by
  rw [(perform_eq_close h hs o).1, close_time]
  exact time_le_prepare a o

/-- A trace that an operation emits comes from a slot whose window has just closed. -/
theorem mem_perform_traces {o : Operation} {t : Trace} (ht : t ∈ (a.perform o).2.traces) :
    t.Assembled a.config ∧ a.time < a.config.closingTime (a.config.windowOf t.startTime) ∧
      a.config.closingTime (a.config.windowOf t.startTime) ≤ (a.perform o).1.time := by
  rw [(perform_eq_close h hs o).2] at ht
  obtain ⟨s, hmem, hclosed, hopen, hsize, rfl⟩ := (mem_close_traces (h.prepare o)).mp ht
  have hsound := (h.prepare o).slots s hmem
  rw [prepare_config] at hclosed hsize hsound
  rw [hsound.windowOf_startTime hopen, (perform_eq_close h hs o).1, close_time]
  exact ⟨hsound.assembled hopen hsize, lt_closingTime_of_mem_prepare h hs o s hmem, hclosed⟩

end

/-- What holds of an assembler and is kept by every operation holds after every run. -/
theorem run_induction {I : Assembler → Prop}
    (step : ∀ a : Assembler, a.Sound → a.Settled → I a → ∀ o, I (a.perform o).1) {a : Assembler}
    (h : a.Sound) (hs : a.Settled) (hI : I a) (ops : List Operation) : I (a.run ops).1 := by
  induction ops generalizing a with
  | nil => exact hI
  | cons o ops ih => exact ih (h.perform hs o) (hs.perform h o) (step a h hs hI o)

theorem Sound.run {a : Assembler} (h : a.Sound) (hs : a.Settled) (ops : List Operation) :
    (a.run ops).1.Sound :=
  run_induction (fun _ h hs _ o => h.perform hs o) h hs h ops

theorem Settled.run {a : Assembler} (hs : a.Settled) (h : a.Sound) (ops : List Operation) :
    (a.run ops).1.Settled :=
  run_induction (fun _ h hs _ o => hs.perform h o) h hs hs ops

theorem run_config {a : Assembler} (h : a.Sound) (hs : a.Settled) (ops : List Operation) :
    (a.run ops).1.config = a.config :=
  run_induction (I := fun b => b.config = a.config)
    (fun _ h hs e o => (perform_config h hs o).trans e) h hs rfl ops

/-- What is emitted over a run was assembled, and its window was not closed before the run. -/
theorem mem_run_traces {a : Assembler} (h : a.Sound) (hs : a.Settled) {ops : List Operation}
    {t : Trace} (ht : t ∈ (a.run ops).2.traces) :
    t.Assembled a.config ∧ a.time < a.config.closingTime (a.config.windowOf t.startTime) := by
  induction ops generalizing a with
  | nil => simp [Assembler.run] at ht
  | cons o ops ih =>
    rcases List.mem_append.mp ht with ht | ht
    · have := mem_perform_traces h hs ht
      exact ⟨this.1, this.2.1⟩
    · have := ih (h.perform hs o) (hs.perform h o) ht
      rw [perform_config h hs] at this
      exact ⟨this.1, Int64.lt_of_le_of_lt (time_le_perform h hs o) this.2⟩

end Assembler
end CallTrace
