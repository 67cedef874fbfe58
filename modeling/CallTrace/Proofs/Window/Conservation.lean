import CallTrace.Proofs.Window.Gathering
import Mathlib.Data.List.Perm.Subperm

/-! # No span is made up, and no loss goes unreported

Every pushed span is late, or emitted with its trace, or held in a slot, or lost with the trace of
a slot that outgrew the limit or was discarded.  `Slot.Account` keeps the books while slots change:
what is held and passed on afterwards was held before or came in, every reported loss is one of a
span at least, and without a reported loss nothing is missing.

Accounts are drawn up for one slot and put together: side by side for a list of slots
(`Slot.Account.append`), one after the other for a whole run (`Slot.Account.trans`).  The account
of a run that starts without slots is `Assembler.spans_conserved`. -/

namespace CallTrace

/-- The span that an operation pushes. -/
def Operation.span? : Operation → Option Span
  | .push span => some span
  | .advance _ => none
  | .discard => none

/-- The spans that operations push, whatever becomes of them. -/
def pushed (ops : List Operation) : List Span := ops.filterMap Operation.span?

theorem pushed_cons (o : Operation) (ops : List Operation) :
    pushed (o :: ops) = o.span?.toList ++ pushed ops := by
  cases o <;> rfl

/-- How many traces are reported as dropped for their size or discarded. -/
def losses (notices : List Notice) : Nat :=
  Counters.raised .oversizedRecords notices + Counters.raised .discardedWindows notices

@[simp] theorem losses_nil : losses [] = 0 := rfl

@[simp] theorem losses_late (span : Span) (w : Window) : losses [.late span w] = 0 := rfl

@[simp] theorem losses_oversized (key : String) (w : Window) (limit : Nat) :
    losses [.oversized key w limit] = 1 := rfl

@[simp] theorem losses_reconstructed : losses [.reconstructed] = 0 := rfl

@[simp] theorem losses_discarded (n : Nat) : losses [.discarded n] = n := by
  simp [losses, Counters.raised, Notice.count, Notice.amount]

@[simp] theorem losses_append (l l' : List Notice) : losses (l ++ l') = losses l + losses l' := by
  simp only [losses, Counters.raised_append]
  omega

namespace Slot
variable {c : WindowConfig} {limit : Nat} {window : Window} {span : Span} {s : Slot}

/-- The spans that a slot can still emit. -/
def held (s : Slot) : List Span := if s.overflowed then [] else s.trace.spans

theorem held_of_open (h : s.overflowed = false) : s.held = s.trace.spans := by
  rw [held, h, if_neg Bool.false_ne_true]

/-- What becomes of spans while slots change: some come in, some are passed on. -/
structure Account (slots slots' : List Slot) (into out : List Span) (notices : List Notice) :
    Prop where
  subperm : (slots'.flatMap held ++ out).Subperm (slots.flatMap held ++ into)
  losses_le : losses notices + (slots'.flatMap held ++ out).length
    ≤ (slots.flatMap held ++ into).length
  intact : losses notices = 0 → (∀ s ∈ slots, s.overflowed = false) →
    (slots.flatMap held ++ into).length ≤ (slots'.flatMap held ++ out).length ∧
      ∀ s ∈ slots', s.overflowed = false

namespace Account
variable {slots slots' slots'' more more' : List Slot} {into into' out out' : List Span}
  {notices notices' : List Notice}

theorem refl (slots : List Slot) : Account slots slots [] [] [] where
  subperm := List.Subperm.refl _
  losses_le := by simp
  intact _ h := ⟨Nat.le_refl _, h⟩

/-- One change after the other. -/
theorem trans (h : Account slots slots' into out notices)
    (h' : Account slots' slots'' into' out' notices') :
    Account slots slots'' (into ++ into') (out ++ out') (notices ++ notices') where
  subperm := by
    have hcount := List.subperm_iff_count.mp h.subperm
    have hcount' := List.subperm_iff_count.mp h'.subperm
    rw [List.subperm_iff_count]
    intro x
    have := hcount x
    have := hcount' x
    simp only [List.count_append] at *
    omega
  losses_le := by
    have := h.losses_le
    have := h'.losses_le
    simp only [List.length_append, losses_append] at *
    omega
  intact hnone hopen := by
    rw [losses_append] at hnone
    obtain ⟨hlength, hopen'⟩ := h.intact (by omega) hopen
    obtain ⟨hlength', hopen''⟩ := h'.intact (by omega) hopen'
    refine ⟨?_, hopen''⟩
    simp only [List.length_append] at *
    omega

/-- Two changes side by side. -/
theorem append (h : Account slots slots' into out notices)
    (h' : Account more more' into' out' notices') :
    Account (slots ++ more) (slots' ++ more') (into ++ into') (out ++ out')
      (notices ++ notices') where
  subperm := by
    have hcount := List.subperm_iff_count.mp h.subperm
    have hcount' := List.subperm_iff_count.mp h'.subperm
    rw [List.subperm_iff_count]
    intro x
    have := hcount x
    have := hcount' x
    simp only [List.count_append, List.flatMap_append] at *
    omega
  losses_le := by
    have := h.losses_le
    have := h'.losses_le
    simp only [List.length_append, List.flatMap_append, losses_append] at *
    omega
  intact hnone hopen := by
    rw [losses_append] at hnone
    simp only [List.forall_mem_append] at hopen ⊢
    obtain ⟨hlength, hopened⟩ := h.intact (by omega) hopen.1
    obtain ⟨hlength', hopened'⟩ := h'.intact (by omega) hopen.2
    refine ⟨?_, hopened, hopened'⟩
    simp only [List.length_append, List.flatMap_append] at *
    omega

/-- The order does not matter. -/
theorem perm (h : Account slots slots' into out notices) (hslots : slots.Perm more)
    (hout : out.Perm out') : Account more slots' into out' notices where
  subperm := by
    have hheld := (hslots.flatMap_right held).append_right into
    exact ((hout.symm.append_left _).subperm.trans h.subperm).trans hheld.subperm
  losses_le := by
    have := h.losses_le
    have := (hslots.flatMap_right held).length_eq
    have := hout.length_eq
    simp only [List.length_append] at *
    omega
  intact hnone hopen := by
    obtain ⟨hlength, hopened⟩ := h.intact hnone fun s hs => hopen s (hslots.mem_iff.mp hs)
    have := (hslots.flatMap_right held).length_eq
    have := hout.length_eq
    refine ⟨?_, hopened⟩
    simp only [List.length_append] at *
    omega

/-! ### Single slots -/

theorem limited (hopen : s.overflowed = false) (hne : s.trace.spans ≠ []) :
    Account [s] [(s.limited limit window).1] [] [] (s.limited limit window).2 := by
  unfold Slot.limited
  split
  · have hpos : 1 ≤ s.trace.spans.length := List.length_pos_of_ne_nil hne
    refine ⟨?_, ?_, ?_⟩
    · simp [held]
    · simpa [held, hopen] using hpos
    · simp
  · exact refl [s]

theorem first (limit : Nat) (window : Window) (span : Span) :
    Account [] [(Slot.first limit window span).1] [span] [] (Slot.first limit window span).2 := by
  have hnew : ∀ s : Slot, s.overflowed = false → s.trace.spans = [span] →
      Account [] [s] [span] [] [] := by
    intro s hs hspans
    refine ⟨?_, ?_, ?_⟩ <;> simp [held, hs, hspans]
  have hspans : (Trace.add {} span).spans = [span] := Trace.spans_add ..
  simp only [Slot.first]
  generalize (Trace.add {} span).recordSize = size
  exact (hnew _ rfl hspans).trans (limited rfl (by simp))

theorem extend (limit : Nat) (window : Window) (span : Span) (s : Slot) :
    Account [s] [(s.extend limit window span).1] [span] [] (s.extend limit window span).2 := by
  have hadded : ∀ t : Slot, s.overflowed = false → t.overflowed = false →
      t.trace.spans = s.trace.spans ++ [span] → Account [s] [t] [span] [] [] := by
    intro t hs ht hspans
    refine ⟨?_, ?_, ?_⟩
    · simpa [held, hs, ht, hspans] using List.Subperm.refl (s.trace.spans ++ [span])
    · simp [held, hs, ht, hspans]
    · simp [held, hs, ht, hspans]
  cases hs : s.overflowed with
  | true =>
    rw [Slot.extend, hs, if_pos rfl]
    refine ⟨?_, ?_, ?_⟩ <;> simp [held, hs]
  | false =>
    rw [Slot.extend, hs, if_neg Bool.false_ne_true]
    exact (hadded _ hs rfl (Trace.spans_add ..)).trans (limited rfl (by simp))

theorem place (h : Ordered slots) : Account slots (place limit window span slots).1 [span] []
    (place limit window span slots).2 := by
  obtain ⟨before, after, -, hplace⟩ := place_eq limit window span h
  rcases hplace with ⟨rfl, e⟩ | ⟨s, -, rfl, e⟩
  · rw [e]
    simpa using (refl before).append ((first limit window span).append (refl after))
  · rw [e]
    simpa using (refl before).append ((extend limit window span s).append (refl after))

theorem emit (h : s.Sound c) :
    Account [s] [] [] ((s.emit c).traces.flatMap Trace.spans) (s.emit c).notices := by
  unfold Slot.emit
  cases hs : s.overflowed with
  | true =>
    rw [if_pos rfl]
    refine ⟨?_, ?_, ?_⟩ <;> simp [held, hs]
  | false =>
    rw [if_neg Bool.false_ne_true]
    have hpos : 1 ≤ s.trace.spans.length := List.length_pos_of_ne_nil (h.spans_ne hs)
    split
    · refine ⟨?_, ?_, ?_⟩
      · simpa [held, hs] using List.Subperm.refl s.trace.spans
      · simp [held, hs]
      · simp [held, hs]
    · refine ⟨?_, ?_, ?_⟩
      · simp
      · simpa [held, hs] using hpos
      · simp

/-! ### Lists of slots -/

theorem emits (h : ∀ s ∈ slots, s.Sound c) : Account slots [] []
    ((slots.flatMap fun s => (s.emit c).traces).flatMap Trace.spans)
    (slots.flatMap fun s => (s.emit c).notices) := by
  induction slots with
  | nil => exact refl []
  | cons s slots ih =>
    have hfirst := emit (h s List.mem_cons_self)
    have hrest := ih fun t ht => h t (.tail _ ht)
    simpa using hfirst.append hrest

/-- Of every slot that is discarded open, a span is lost at least. -/
theorem discard (h : ∀ s ∈ slots, s.Sound c) :
    Account slots [] [] [] [.discarded (slots.countP fun s => !s.overflowed)] := by
  have hle : (slots.countP fun s => !s.overflowed) ≤ (slots.flatMap held).length := by
    induction slots with
    | nil => simp
    | cons s slots ih =>
      have hrest := ih fun t ht => h t (.tail _ ht)
      rw [List.flatMap_cons, List.length_append, List.countP_cons]
      cases hs : s.overflowed with
      | true =>
        simp only [Bool.not_true, Bool.false_eq_true, if_false]
        omega
      | false =>
        have := List.length_pos_of_ne_nil ((h s List.mem_cons_self).spans_ne hs)
        rw [held_of_open hs]
        simp only [Bool.not_false, if_true]
        omega
  refine ⟨?_, ?_, fun hnone hopen => ?_⟩
  · exact (List.nil_sublist _).subperm
  · simpa using hle
  · rw [losses_discarded, List.countP_eq_zero] at hnone
    have hnil : slots = [] := by
      rw [List.eq_nil_iff_forall_not_mem]
      intro s hs
      exact hnone s hs (by simp [hopen s hs])
    simp [hnil]

end Account

end Slot

namespace Assembler
open Slot
variable {a : Assembler}

/-- The spans in slots that can still emit a trace. -/
def held (a : Assembler) : List Span := a.slots.flatMap Slot.held

/-- The spans that operations push too late. -/
def lateSpans (a : Assembler) : List Operation → List Span
  | [] => []
  | o :: ops => o.span?.toList.filter a.late ++ (a.perform o).1.lateSpans ops

theorem account_close (h : a.Sound) : Account a.slots a.close.1.slots []
    (a.close.2.traces.flatMap Trace.spans) a.close.2.notices := by
  have hclosing : ∀ s ∈ a.slots.filter a.expired, s.Sound a.config :=
    fun s hs => h.slots s (List.mem_filter.mp hs).1
  have := (Account.emits hclosing).append (Account.refl (a.slots.filter fun s => !a.expired s))
  rw [close_slots h, close_traces h, close_notices h]
  simpa using this.perm (List.filter_append_perm a.expired a.slots) (List.Perm.refl _)

theorem account_prepare (h : a.Sound) (o : Operation) :
    Account a.slots (a.prepare o).slots o.span?.toList (o.span?.toList.filter a.late)
      (a.remarks o) := by
  cases o with
  | push span =>
    rw [prepare_push, remarks_push]
    show Account _ _ [span] ([span].filter a.late) _
    by_cases hclosed : a.phase (a.windowOf span.startTime) = .closed
    · have hlate : [span].filter a.late = [span] :=
        List.filter_cons_of_pos (decide_eq_true hclosed)
      rw [if_pos hclosed, if_pos hclosed, hlate]
      exact ⟨List.Subperm.refl _, by simp, fun _ hopen => ⟨Nat.le_refl _, hopen⟩⟩
    · have hearly : [span].filter a.late = [] :=
        List.filter_cons_of_neg (by simpa [late] using hclosed)
      rw [if_neg hclosed, if_neg hclosed, hearly]
      exact Account.place h.ordered
  | advance time => exact Account.refl a.slots
  | discard => exact Account.discard h.slots

section
variable (h : a.Sound) (hs : a.Settled)
include h hs

theorem account_perform (o : Operation) :
    Account a.slots (a.perform o).1.slots o.span?.toList
      ((a.perform o).2.traces.flatMap Trace.spans ++ o.span?.toList.filter a.late)
      (a.perform o).2.notices := by
  have := (account_prepare h o).trans (account_close (h.prepare o))
  rw [List.append_nil] at this
  rw [(perform_eq_close h hs o).1, (perform_eq_close h hs o).2, perform_notices h hs]
  exact this.perm (List.Perm.refl _) List.perm_append_comm

theorem account_run (ops : List Operation) :
    Account a.slots (a.run ops).1.slots (pushed ops)
      ((a.run ops).2.traces.flatMap Trace.spans ++ a.lateSpans ops) (a.run ops).2.notices := by
  induction ops generalizing a with
  | nil => exact Account.refl a.slots
  | cons o ops ih =>
    have := (account_perform h hs o).trans (ih (h.perform hs o) (hs.perform h o))
    rw [pushed_cons]
    refine this.perm (List.Perm.refl _) ?_
    rw [Assembler.run, Emission.traces_append, List.flatMap_append, lateSpans, List.perm_iff_count]
    intro x
    simp only [List.count_append]
    omega

omit hs in
theorem raised_perform_late (o : Operation) :
    Counters.raised .lateSpans (a.perform o).2.notices
      = (o.span?.toList.filter a.late).length := by
  cases o with
  | push span =>
    show Counters.raised .lateSpans (a.push span).2.notices = ([span].filter a.late).length
    rw [raised_push h]
    cases hlate : a.late span <;> simp [hlate]
  | advance time =>
    refine Counters.raised_eq_zero fun n hn => ?_
    rcases count_close (h.prepare (.advance time)) n hn with e | e <;> simp [e]
  | discard =>
    refine Counters.raised_eq_zero fun n hn => ?_
    obtain rfl := List.mem_singleton.mp hn
    exact Counter.noConfusion

theorem raised_run_late (ops : List Operation) :
    Counters.raised .lateSpans (a.run ops).2.notices = (a.lateSpans ops).length := by
  induction ops generalizing a with
  | nil => rfl
  | cons o ops ih =>
    rw [Assembler.run, Emission.notices_append, Counters.raised_append, raised_perform_late h,
      ih (h.perform hs o) (hs.perform h o), lateSpans, List.length_append]

end

/-- The spans that are not lost: those of emitted traces, those in slots and the late ones. -/
def kept (a : Assembler) (ops : List Operation) : List Span :=
  (a.run ops).2.traces.flatMap Trace.spans ++ (a.run ops).1.held ++ a.lateSpans ops

theorem kept_of_slots_nil (h : a.Sound) (hs : a.Settled) (hempty : a.slots = [])
    (ops : List Operation) :
    (a.kept ops).Subperm (pushed ops) ∧
      losses (a.run ops).2.notices + (a.kept ops).length ≤ (pushed ops).length ∧
      (losses (a.run ops).2.notices = 0 → (a.kept ops).Perm (pushed ops)) := by
  have haccount := account_run h hs ops
  rw [hempty] at haccount
  have hkept : (a.kept ops).Perm ((a.run ops).1.slots.flatMap Slot.held
      ++ ((a.run ops).2.traces.flatMap Trace.spans ++ a.lateSpans ops)) := by
    rw [List.perm_iff_count]
    intro x
    simp only [kept, held, List.count_append]
    omega
  refine ⟨hkept.subperm.trans haccount.subperm, ?_, fun hnone => ?_⟩
  · rw [hkept.length_eq]
    exact haccount.losses_le
  · obtain ⟨hlength, -⟩ := haccount.intact hnone (by simp)
    exact hkept.trans (haccount.subperm.perm_of_length_le hlength)

/-- Emitted, held and late spans are pushed spans, each of them once, and all of them as long as no
loss was counted; late spans are counted one by one.  An emitted trace holds the spans of its key
and window that were accepted since slots were last discarded, in the order in which they came. -/
theorem spans_conserved {c : WindowConfig} (h : new? c = .ok a) (ops : List Operation) :
    let notices := (a.run ops).2.notices
    let counters := Counters.record {} notices
    (a.kept ops).Subperm (pushed ops) ∧
    (Counters.raised .lateSpans notices = (a.lateSpans ops).length ∧
      counters.get .lateSpans = (a.lateSpans ops).length.toUInt64) ∧
    (Counters.raised .oversizedRecords notices = 0 →
      Counters.raised .discardedWindows notices = 0 → (a.kept ops).Perm (pushed ops)) ∧
    ((pushed ops).length < UInt64.size → counters.get .oversizedRecords = 0 →
      counters.get .discardedWindows = 0 → (a.kept ops).Perm (pushed ops)) ∧
    ∀ before o after, ops = before ++ o :: after →
      ∀ t ∈ ((a.run before).1.perform o).2.traces,
        t.spans = (a.accepted [] (before ++ [o])).filter fun x =>
          x.windowKey = t.windowKey ∧ c.windowOf x.startTime = c.windowOf t.startTime := by
  obtain ⟨hc, rfl⟩ := new?_eq_ok_iff.mp h
  have hsound := sound_new hc
  have hsettled := settled_new c
  obtain ⟨hsub, hfew, hall⟩ := kept_of_slots_nil hsound hsettled rfl ops
  have hlate := raised_run_late hsound hsettled ops
  refine ⟨hsub, ⟨hlate, ?_⟩, ?_, ?_, ?_⟩
  · rw [Counters.get_record_empty, hlate]
  · intro hoversized hdiscarded
    exact hall (by rw [losses, hoversized, hdiscarded])
  · intro hsmall hoversized hdiscarded
    -- no more can have been reported than was pushed, so the cells have not wrapped around
    unfold losses at hfew
    rw [Counters.get_record_eq_zero_iff (by omega)] at hoversized hdiscarded
    exact hall (by rw [losses, hoversized, hdiscarded])
  · intro before o after _ t ht
    have hgathers := (gathers_new c).run hsound hsettled before
    rw [hgathers.spans_of_mem_perform (hsound.run hsettled before) (hsettled.run hsound before) ht,
      run_config hsound hsettled, accepted_append]
    rfl

/-- Spans of two keys, one of them in the wrong order, and one that comes too late. -/
theorem spans_conserved_with_late_span :
    let ops : List Operation := [.push { traceId := "a", startTime := 100 },
      .push { traceId := "b", startTime := 200 }, .push { traceId := "a", startTime := 50 },
      .advance 12000, .push { traceId := "a", startTime := 300 },
      .push { traceId := "a", startTime := 13000 }]
    (kept { config := {} } ops).Perm (pushed ops) ∧
      (lateSpans { config := {} } ops).map Span.startTime = [300] := by
  intro ops
  have hrun : (Counters.raised .oversizedRecords (run { config := {} } ops).2.notices = 0 ∧
      Counters.raised .discardedWindows (run { config := {} } ops).2.notices = 0) ∧
      (lateSpans { config := {} } ops).map Span.startTime = [300] := by decide +kernel
  obtain ⟨-, -, hall, -⟩ := spans_conserved (c := {}) (a := { config := {} }) rfl ops
  exact ⟨hall hrun.1.1 hrun.1.2, hrun.2⟩

end Assembler
end CallTrace
