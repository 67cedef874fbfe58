import CallTrace.Proofs.Counters
import CallTrace.Proofs.Window.Run

/-! # The law of the watermark

The watermark is the highest time that was told, by a span or without one
(`Assembler.watermark_run`).  A late span does not move it, and need not: its window closes at its
own time or later, so a watermark that has closed the window is no lower than the span
(`WindowConfig.le_closingTime`).

A span is late if and only if the watermark has reached the closing time of its window
(`Assembler.late_iff`).  Since the watermark only rises, windows pass through their phases in one
direction (`WindowConfig.rank_phase_merge`).  `Assembler.watermark_law` puts this together and says
in milliseconds when a window is open, when it is closed and when a span is late. -/

namespace List
variable {α : Type}

theorem max?_append [Max α] [Std.Associative (max : α → α → α)] (l l' : List α) :
    (l ++ l').max? = l.max?.merge max l'.max? := by
  cases l with
  | nil => cases h : l'.max? <;> simp [h]
  | cons a l =>
    cases l' with
    | nil => simp
    | cons b l' =>
      simp only [cons_append, max?_cons', foldl_append, foldl_cons, Option.merge_some_some]
      rw [foldl_assoc]

end List

namespace CallTrace

/-- The time that an operation tells. -/
def Operation.eventTime? : Operation → Option Timestamp
  | .push span => some span.startTime
  | .advance time => some time
  | .discard => none

/-- The phases in the order in which a window passes through them. -/
def Phase.rank : Phase → Nat
  | .opened => 0
  | .closing => 1
  | .closed => 2

theorem WindowConfig.phase_eq_closed_iff {c : WindowConfig} {m : Option Timestamp} {w : Window} :
    c.phase m w = .closed ↔ ∃ t, m = some t ∧ c.closingTime w ≤ t := by
  unfold phase
  cases m with
  | none => simp
  | some t =>
    by_cases h : c.closingTime w ≤ t
    · simp [h]
    · by_cases h' : w.stop ≤ t <;> simp [h, h']

theorem WindowConfig.phase_eq_opened_iff {c : WindowConfig} (hc : c.Valid) {m : Option Timestamp}
    {w : Window} : c.phase m w = .opened ↔ ∀ t, m = some t → t < w.stop := by
  unfold phase
  cases m with
  | none => simp
  | some t =>
    by_cases h : w.stop ≤ t
    · by_cases h' : c.closingTime w ≤ t <;> simp [h, h']
    · have hopen : ¬ c.closingTime w ≤ t :=
        fun h' => h (Int64.le_trans (stop_le_closingTime hc w) h')
      simp [h, hopen, Int64.not_le.mp h]

/-- No window goes back to an earlier phase when the watermark rises. -/
theorem WindowConfig.rank_phase_merge (c : WindowConfig) (m t : Option Timestamp) (w : Window) :
    (c.phase m w).rank ≤ (c.phase (m.merge max t) w).rank := by
  have rank_le : ∀ {x y : Timestamp}, x ≤ y →
      (c.phase (some x) w).rank ≤ (c.phase (some y) w).rank := by
    intro x y hxy
    have hclosing : c.closingTime w ≤ x → c.closingTime w ≤ y := fun h => Int64.le_trans h hxy
    have hstop : w.stop ≤ x → w.stop ≤ y := fun h => Int64.le_trans h hxy
    unfold phase Phase.rank
    grind
  cases m with
  | none => exact Nat.zero_le _
  | some x =>
    cases t with
    | none => exact Nat.le_refl _
    | some y => exact rank_le Std.left_le_max

namespace Assembler
variable {a : Assembler}

/-! ### Late spans -/

/-- Whether the window of a span is closed already. -/
def late (a : Assembler) (span : Span) : Bool := a.phase (a.windowOf span.startTime) = .closed

theorem late_iff {span : Span} : a.late span = true ↔
    ∃ t, a.watermark = some t ∧ a.config.closingTime (a.windowOf span.startTime) ≤ t := by
  rw [late, decide_eq_true_iff]
  exact WindowConfig.phase_eq_closed_iff

theorem push_of_late {span : Span} (h : a.late span = true) :
    a.push span = (a, { notices := [.late span (a.windowOf span.startTime)] }) :=
  push_of_closed (of_decide_eq_true h)

theorem push_of_not_late {span : Span} (h : a.late span = false) :
    a.push span = ((a.accept span).close.1,
      { notices :=
          (Slot.place a.config.maxRecordSize (a.windowOf span.startTime) span a.slots).2 }
        ++ (a.accept span).close.2) :=
  push_of_open (of_decide_eq_false h)

/-- A late span tells no new time. -/
theorem raise_of_late (hc : a.config.Valid) {span : Span} (h : a.late span = true) :
    a.raise span.startTime = a := by
  obtain ⟨t, ht, hle⟩ := late_iff.mp h
  have hspan : span.startTime ≤ t := Int64.le_trans (WindowConfig.le_closingTime hc _) hle
  have hwatermark : (a.raise span.startTime).watermark = a.watermark := by
    unfold raise
    rw [ht]
    exact congrArg some (Std.LawfulOrderLeftLeaningMax.max_eq_left t _ hspan)
  exact congrArg (fun m => { a with watermark := m }) hwatermark

/-! ### What notices say -/

theorem count_emit (c : WindowConfig) (s : Slot) : ∀ n ∈ (s.emit c).notices,
    n.count.1 = .reconstructedTraces ∨ n.count.1 = .oversizedRecords := by
  unfold Slot.emit
  split
  · simp
  · split <;> simp [Notice.count]

theorem count_limited {limit : Nat} {window : Window} (s : Slot) :
    ∀ n ∈ (s.limited limit window).2, n.count.1 = .oversizedRecords := by
  unfold Slot.limited
  split <;> simp [Notice.count]

theorem count_place {limit : Nat} {window : Window} {span : Span} (slots : List Slot) :
    ∀ n ∈ (Slot.place limit window span slots).2, n.count.1 = .oversizedRecords := by
  induction slots with
  | nil =>
    rw [Slot.place_nil]
    exact count_limited _
  | cons s slots ih =>
    rw [Slot.place_cons]
    split
    · unfold Slot.extend
      split
      · simp
      · exact count_limited _
    · split
      · exact count_limited _
      · exact ih

/-- Before windows are closed there is something to say about late spans and about traces that are too
large, or how many slots are discarded. -/
theorem count_remarks (a : Assembler) (o : Operation) : ∀ n ∈ a.remarks o,
    n.count.1 = .lateSpans ∨ n.count.1 = .oversizedRecords ∨
      o = .discard ∧ n = .discarded a.openWindows := by
  intro n hn
  cases o with
  | push span =>
    rw [remarks_push] at hn
    split at hn
    · obtain rfl := List.mem_singleton.mp hn
      exact .inl rfl
    · exact .inr (.inl (count_place _ n hn))
  | advance time => simp [remarks] at hn
  | discard => exact .inr (.inr ⟨rfl, List.mem_singleton.mp hn⟩)

/-- Closing windows reports nothing but what becomes of their traces. -/
theorem count_close (h : a.Sound) : ∀ n ∈ a.close.2.notices,
    n.count.1 = .reconstructedTraces ∨ n.count.1 = .oversizedRecords := by
  intro n hn
  rw [close_notices h, List.mem_flatMap] at hn
  obtain ⟨s, -, hn⟩ := hn
  exact count_emit a.config s n hn

/-- A push reports one late span, or none. -/
theorem raised_push (h : a.Sound) (span : Span) :
    Counters.raised .lateSpans (a.push span).2.notices = if a.late span then 1 else 0 := by
  cases hlate : a.late span with
  | true =>
    rw [push_of_late hlate]
    rfl
  | false =>
    rw [push_of_not_late hlate, if_neg Bool.false_ne_true]
    refine Counters.raised_eq_zero fun n hn => ?_
    rcases List.mem_append.mp hn with hn | hn
    · rw [count_place _ n hn]
      exact Counter.noConfusion
    · rcases count_close (h.accept span) n hn with e | e <;> simp [e]

/-! ### The highest time -/

section
variable (h : a.Sound) (hs : a.Settled)
include h hs

theorem watermark_perform (o : Operation) :
    (a.perform o).1.watermark = a.watermark.merge max o.eventTime? := by
  rw [(perform_eq_close h hs o).1]
  show (a.prepare o).watermark = _
  have raised : ∀ t : Timestamp, (a.raise t).watermark = a.watermark.merge max (some t) := by
    intro t
    unfold raise
    cases a.watermark <;> rfl
  cases o with
  | push span =>
    rw [prepare_push]
    split
    · next hclosed =>
      rw [Operation.eventTime?, ← raised, raise_of_late h.valid (decide_eq_true hclosed)]
    · exact raised span.startTime
  | advance time => exact raised time
  | discard =>
    show a.watermark = _
    cases a.watermark <;> rfl

theorem watermark_run (ops : List Operation) :
    (a.run ops).1.watermark = a.watermark.merge max (ops.filterMap Operation.eventTime?).max? := by
  induction ops generalizing a with
  | nil =>
    show a.watermark = _
    cases a.watermark <;> rfl
  | cons o ops ih =>
    rw [Assembler.run, ih (h.perform hs o) (hs.perform h o), watermark_perform h hs]
    have hcons : (o :: ops).filterMap Operation.eventTime?
        = o.eventTime?.toList ++ ops.filterMap Operation.eventTime? := by
      rw [List.filterMap_cons]
      cases o.eventTime? <;> rfl
    have hone : o.eventTime?.toList.max? = o.eventTime? := by
      cases o.eventTime? <;> rfl
    rw [hcons, List.max?_append, hone]
    exact Std.Associative.assoc _ _ _

end

/-- The watermark is the highest time told.  A window is closed if and only if the watermark has
reached its end and the grace period after it, which are added up within the range of timestamps,
and open as long as the watermark lies before its end.  A span is dropped as late if and only if its
window is closed so, and nothing but a counter changes then.  No slot of a closed window is left,
and no window goes back to an earlier phase. -/
theorem watermark_law {c : WindowConfig} (h : new? c = .ok a) (ops : List Operation) :
    let b := (a.run ops).1
    (b.watermark = (ops.filterMap Operation.eventTime?).max? ∧
      (b.watermark = none ↔ ∀ o ∈ ops, o.eventTime? = none)) ∧
    (∀ w : Window,
      (b.phase w = .closed
        ↔ ∃ t, b.watermark = some t ∧ Timestamp.clamp (w.stop.toInt + c.grace.toInt) ≤ t) ∧
      (b.phase w = .opened ↔ ∀ t, b.watermark = some t → t < w.stop)) ∧
    (∀ (span : Span) (counters : Counters),
      let counted := counters.record (b.push span).2.notices
      (counted.get .lateSpans ≠ counters.get .lateSpans
        ↔ ∃ t, b.watermark = some t ∧
          Timestamp.clamp ((c.windowOf span.startTime).stop.toInt + c.grace.toInt) ≤ t) ∧
      (counted.get .lateSpans ≠ counters.get .lateSpans →
        (b.push span).1 = b ∧ (b.push span).2.traces = [] ∧ counted = counters.incr .lateSpans)) ∧
    (∀ s ∈ b.slots, b.phase (b.windowOf s.start) ≠ .closed) ∧
    ∀ (more : List Operation) (w : Window), (b.phase w).rank ≤ ((b.run more).1.phase w).rank := by
  obtain ⟨hc, rfl⟩ := new?_eq_ok_iff.mp h
  intro b
  have hsound : b.Sound := (sound_new hc).run (settled_new c) ops
  have hsettled : b.Settled := (settled_new c).run (sound_new hc) ops
  have hconfig : b.config = c := run_config (sound_new hc) (settled_new c) ops
  have hwatermark : b.watermark = (ops.filterMap Operation.eventTime?).max? := by
    rw [show b.watermark = _ from watermark_run (sound_new hc) (settled_new c) ops]
    cases (ops.filterMap Operation.eventTime?).max? <;> rfl
  refine ⟨⟨hwatermark, ?_⟩, fun w => ?_, fun span counters => ?_, fun s hs => ?_, fun more w => ?_⟩
  · rw [hwatermark, List.max?_eq_none_iff, List.filterMap_eq_nil_iff]
  · rw [← hconfig]
    exact ⟨WindowConfig.phase_eq_closed_iff, WindowConfig.phase_eq_opened_iff hsound.valid⟩
  · have hcounted : (counters.record (b.push span).2.notices).get .lateSpans
        ≠ counters.get .lateSpans ↔ b.late span = true := by
      rw [Counters.get_record, raised_push hsound]
      cases b.late span <;> simp
    constructor
    · rw [← hconfig]
      exact hcounted.trans late_iff
    · intro hchanged
      rw [push_of_late (hcounted.mp hchanged)]
      exact ⟨rfl, rfl, rfl⟩
  · rw [ne_eq, phase_eq_closed_iff hsound.valid]
    exact Int64.not_le.mpr (hsettled s hs)
  · unfold phase
    rw [run_config hsound hsettled, watermark_run hsound hsettled]
    exact WindowConfig.rank_phase_merge ..

/-- A millisecond before the window [0, 10000) closes, a further span of it is in time, and one of the
window before is late. -/
theorem watermark_law_in_grace :
    let ops : List Operation := [.push { traceId := "a", startTime := 5 }, .advance 11999]
    let inGrace : Span := { traceId := "a", startTime := 9999 }
    let late : Span := { traceId := "a", startTime := -1 }
    let b := (run { config := {} } ops).1
    let counted (span : Span) := Counters.record {} (b.push span).2.notices
    b.watermark = some 11999 ∧ b.phase ⟨0, 10000⟩ ≠ .opened ∧ b.phase ⟨0, 10000⟩ ≠ .closed ∧
      (counted inGrace).get .lateSpans = 0 ∧
      ((b.push inGrace).1.slots.map fun s => s.trace.spans.length) = [2] ∧
      (counted late).get .lateSpans = 1 ∧ (b.push late).1 = b := by
  intro ops inGrace late b counted
  have hslots : ((b.push inGrace).1.slots.map fun s => s.trace.spans.length) = [2] := by
    decide +kernel +revert
  have hlaw := watermark_law (c := {}) (a := { config := {} }) rfl ops
  rw [show (run { config := {} } ops).1 = b from rfl] at hlaw
  obtain ⟨⟨hwatermark, -⟩, hphase, hlate, -⟩ := hlaw
  have hmax : b.watermark = some 11999 := hwatermark.trans (by decide)
  have hbefore : ∀ time : Timestamp, 11999 < time → ¬ ∃ t, b.watermark = some t ∧ time ≤ t := by
    rintro time hlt ⟨t, ht, hle⟩
    obtain rfl : 11999 = t := Option.some.inj (hmax.symm.trans ht)
    exact absurd hle (Int64.not_le.mpr hlt)
  have hopened : b.phase ⟨0, 10000⟩ ≠ .opened :=
    fun h => absurd ((hphase ⟨0, 10000⟩).2.mp h 11999 hmax) (by decide)
  have hclosed : b.phase ⟨0, 10000⟩ ≠ .closed :=
    fun h => hbefore _ (by decide) ((hphase ⟨0, 10000⟩).1.mp h)
  have hin : (counted inGrace).get .lateSpans = Counters.get {} .lateSpans :=
    Decidable.byContradiction fun h => hbefore _ (by decide) ((hlate inGrace {}).1.mp h)
  obtain ⟨hsame, -, hcounted⟩ := (hlate late {}).2 ((hlate late {}).1.mpr ⟨_, hmax, by decide⟩)
  have hone : (counted late).get .lateSpans = (Counters.incr {} .lateSpans).get .lateSpans :=
    congrArg (Counters.get · .lateSpans) hcounted
  exact ⟨hmax, hopened, hclosed, hin.trans (by decide), hslots, hone.trans (by decide), hsame⟩

/-- A span at the end of time closes its own window; an earlier one is late then. -/
example :
    let b := (run { config := {} } [.push { traceId := "a", startTime := Int64.maxValue }]).1
    b.slots = [] ∧ (b.push { traceId := "a", startTime := Int64.maxValue - 1 }).1 = b := by
  decide +kernel

end Assembler
end CallTrace
