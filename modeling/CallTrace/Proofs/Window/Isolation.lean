import CallTrace.Proofs.Window.Watermark
import Mathlib.Data.List.Basic

/-! # Keys do not interfere

Of the spans of other keys a slot needs to know no more than the time.  To mask a set of keys is to
tell the times of their spans instead of pushing them (`Operation.masked`).  An assembler that is
told the masked operations is the one that was told all of them, without the slots of the masked
keys (`Assembler.only`, `Assembler.run_masked`), and it emits the same traces but theirs
(`Assembler.traces_perform_masked`).

All ways of a push come to this: a late span changes nothing, and its time is known; any other span
raises the watermark, and of the slots only that of its own key changes, whether it has room for
the span or not. -/

namespace CallTrace

/-- The operation, with only the time left of a span whose key is not visible. -/
def Operation.masked (visible : String → Bool) : Operation → Operation
  | .push span => if visible span.windowKey then .push span else .advance span.startTime
  | .advance time => .advance time
  | .discard => .discard

namespace Assembler
variable {visible : String → Bool} {a : Assembler}

/-- The assembler with the slots of the visible keys only. -/
def only (visible : String → Bool) (a : Assembler) : Assembler :=
  { a with slots := a.slots.filter fun s => visible s.key }

theorem Sound.only (h : a.Sound) : (a.only visible).Sound where
  valid := h.valid
  ordered := h.ordered.filter _
  slots s hs := h.slots s (List.mem_filter.mp hs).1

theorem Settled.only (h : a.Settled) : (a.only visible).Settled :=
  fun s hs => h s (List.mem_filter.mp hs).1

theorem only_close (h : a.Sound) : a.close.1.only visible = (a.only visible).close.1 := by
  have hslots : (a.close.1.only visible).slots = (a.only visible).close.1.slots := by
    show a.close.1.slots.filter _ = _
    rw [close_slots h, close_slots h.only]
    exact List.filter_comm _ _ a.slots
  exact congrArg (fun slots => { a with slots }) hslots

/-- A slot emits traces of its own key. -/
theorem filter_traces_emit {c : WindowConfig} {s : Slot} (h : s.Sound c) :
    (s.emit c).traces.filter (fun t => visible t.windowKey)
      = if visible s.key then (s.emit c).traces else [] := by
  have hkey : ∀ t ∈ (s.emit c).traces, t.windowKey = s.key := by
    intro t ht
    obtain ⟨hopen, -, rfl⟩ := Slot.mem_emit.mp ht
    exact h.windowKey_trace hopen
  split
  · next hvisible =>
    rw [List.filter_eq_self]
    intro t ht
    rw [hkey t ht, hvisible]
  · next hmasked =>
    rw [List.filter_eq_nil_iff]
    intro t ht
    rwa [hkey t ht]

theorem filter_flatMap_emit {c : WindowConfig} {slots : List Slot} (h : ∀ s ∈ slots, s.Sound c) :
    (slots.flatMap fun s => (s.emit c).traces).filter (fun t => visible t.windowKey)
      = (slots.filter fun s => visible s.key).flatMap fun s => (s.emit c).traces := by
  induction slots with
  | nil => rfl
  | cons s slots ih =>
    rw [List.flatMap_cons, List.filter_append, filter_traces_emit (h s List.mem_cons_self),
      ih fun t ht => h t (.tail _ ht)]
    cases hvisible : visible s.key <;> simp [hvisible]

theorem traces_close_only (h : a.Sound) : (a.only visible).close.2.traces
    = a.close.2.traces.filter fun t => visible t.windowKey := by
  rw [close_traces h, close_traces h.only,
    filter_flatMap_emit fun s hs => h.slots s (List.mem_filter.mp hs).1]
  show ((a.slots.filter _).filter a.expired).flatMap _ = _
  rw [List.filter_comm]
  rfl

/-! ### Masked operations -/

/-- A span is placed among the visible slots as among all, or not at all. -/
theorem only_accept (h : a.Sound) (span : Span) : (a.accept span).only visible
    = if visible span.windowKey then (a.only visible).accept span
      else (a.only visible).raise span.startTime := by
  split
  · next hvisible =>
    have hslots : (Slot.place a.config.maxRecordSize (a.windowOf span.startTime) span
          (a.slots.filter fun s => visible s.key)).1
        = (a.accept span).slots.filter fun s => visible s.key :=
      congrArg Prod.fst (Slot.filter_place_of_pos h.ordered hvisible)
    exact congrArg (fun slots => { a.raise span.startTime with slots }) hslots.symm
  · next hmasked =>
    have hslots : (a.accept span).slots.filter (fun s => visible s.key)
        = a.slots.filter fun s => visible s.key :=
      Slot.filter_place_of_neg (by simpa using hmasked)
    exact congrArg (fun slots => { a.raise span.startTime with slots }) hslots

theorem prepare_masked (h : a.Sound) (o : Operation) :
    (a.only visible).prepare (o.masked visible) = (a.prepare o).only visible := by
  cases o with
  | push span =>
    have hphase : (a.only visible).phase ((a.only visible).windowOf span.startTime)
        = a.phase (a.windowOf span.startTime) := rfl
    rw [Operation.masked, prepare_push]
    by_cases hclosed : a.phase (a.windowOf span.startTime) = .closed
    · rw [if_pos hclosed]
      split
      · rw [prepare_push, hphase, if_pos hclosed]
      · exact raise_of_late h.only.valid (decide_eq_true hclosed)
    · rw [if_neg hclosed, only_accept h]
      split
      · rw [prepare_push, hphase, if_neg hclosed]
      · rfl
  | advance time => rfl
  | discard => rfl

section
variable (h : a.Sound) (hs : a.Settled)
include h hs

theorem perform_masked (o : Operation) :
    ((a.only visible).perform (o.masked visible)).1 = (a.perform o).1.only visible := by
  rw [(perform_eq_close h hs o).1, (perform_eq_close h.only hs.only _).1, prepare_masked h,
    only_close (h.prepare o)]

theorem traces_perform_masked (o : Operation) :
    ((a.only visible).perform (o.masked visible)).2.traces
      = (a.perform o).2.traces.filter fun t => visible t.windowKey := by
  rw [(perform_eq_close h hs o).2, (perform_eq_close h.only hs.only _).2, prepare_masked h,
    traces_close_only (h.prepare o)]

theorem run_masked (ops : List Operation) :
    ((a.only visible).run (ops.map (Operation.masked visible))).1
      = (a.run ops).1.only visible := by
  induction ops generalizing a with
  | nil => rfl
  | cons o ops ih =>
    rw [List.map_cons, Assembler.run, Assembler.run, perform_masked h hs]
    exact ih (h.perform hs o) (hs.perform h o)

end

/-- Whatever is done with the spans of a key, if only their times are told instead, then at every
step the traces and the slots of all other keys are the same, and so is the watermark. -/
theorem other_keys_unchanged {c : WindowConfig} (h : new? c = .ok a) (key : String)
    (before : List Operation) (o : Operation) :
    let visible := fun k : String => decide (k ≠ key)
    let step := (a.run before).1.perform o
    let step' := (a.run (before.map (Operation.masked visible))).1.perform (o.masked visible)
    step'.2.traces = step.2.traces.filter (fun t => t.windowKey ≠ key) ∧
      step'.1.slots = step.1.slots.filter (fun s => s.key ≠ key) ∧
      step'.1.watermark = step.1.watermark := by
  obtain ⟨hc, rfl⟩ := new?_eq_ok_iff.mp h
  intro visible step step'
  have hsound := (sound_new hc).run (settled_new c) before
  have hsettled := (settled_new c).run (sound_new hc) before
  have hrun : (run { config := c } (before.map (Operation.masked visible))).1
      = (run { config := c } before).1.only visible :=
    run_masked (sound_new hc) (settled_new c) before
  have hstep : step'.1 = step.1.only visible := by
    rw [← perform_masked hsound hsettled, ← hrun]
  refine ⟨?_, ?_, ?_⟩
  · have htraces : (((run { config := c } before).1.only visible).perform (o.masked visible)).2.traces
        = step.2.traces.filter fun t => visible t.windowKey :=
      traces_perform_masked hsound hsettled o
    rwa [← hrun] at htraces
  · rw [hstep]
    rfl
  · rw [hstep]
    rfl

theorem other_keys_unchanged_by_late_span :
    let before : List Operation := [.push { traceId := "a", startTime := 100 },
      .push { traceId := "b", startTime := 200 }, .push { traceId := "a", startTime := 11000 }]
    let o : Operation := .push { traceId := "a", startTime := 12000 }
    let masked := Operation.masked fun k => decide (k ≠ "::a")
    let step := (run { config := {} } before).1.perform o
    let step' := (run { config := {} } (before.map masked)).1.perform (masked o)
    step.2.traces.map Trace.traceId = ["a", "b"] ∧
      step'.2.traces = step.2.traces.filter fun t => t.windowKey ≠ "::a" :=
  ⟨by decide +kernel,
    (other_keys_unchanged (c := {}) (a := { config := {} }) rfl "::a" _ _).1⟩

end Assembler
end CallTrace
