import CallTrace.Proofs.Window.Conservation
import Mathlib.Data.List.Nodup
import Mathlib.Data.Prod.Basic

/-! # The order of arrival

As long as no time that is told closes the window of a span, all spans are accepted and nothing is
emitted, in whatever order they come (`Assembler.OpenAt.run_pushes`).  Then there is one slot for
each address that occurs among the spans, the slots stand in the order of their addresses
(`Assembler.Holds.addresses_eq`), and what a slot holds are the spans with its address in the order
of their arrival.  Times, duration and counts of a trace do not depend on that order
(`Trace.agree_ofSpans`), so nor does what is emitted at the end
(`Assembler.emitted_agree_of_perm`). -/

namespace CallTrace

/-! ### Traces of the same spans -/

namespace Trace

/-- What traces of the same spans have in common, in whatever order these came. -/
structure Agree (t u : Trace) : Prop where
  windowKey_eq : t.windowKey = u.windowKey
  startTime_eq : t.startTime = u.startTime
  endTime_eq : t.endTime = u.endTime
  duration_eq : t.duration = u.duration
  overallRequestCount_eq : t.overallRequestCount = u.overallRequestCount
  traceCount_eq : t.traceCount = u.traceCount
  spans_perm : t.spans.Perm u.spans

theorem windowKey_ofSpans {l : List Span} {key : String} (hne : l ≠ [])
    (h : ∀ x ∈ l, x.windowKey = key) : (ofSpans l).windowKey = key := by
  obtain ⟨x, l, rfl⟩ := List.exists_cons_of_ne_nil hne
  rw [ofSpans_cons]
  exact h x List.mem_cons_self

theorem agree_ofSpans {l l' : List Span} (h : l.Perm l') (hne : l ≠ []) (key : String)
    (hkey : ∀ x ∈ l, x.windowKey = key) : (ofSpans l).Agree (ofSpans l') := by
  have hne' : l' ≠ [] := fun e => hne (List.perm_nil.mp (e ▸ h))
  have hkey' : ∀ x ∈ l', x.windowKey = key := fun x hx => hkey x (h.mem_iff.mpr hx)
  obtain ⟨hstart, hend, hduration, hrequests, htraces⟩ := extent_ofSpans_of_perm h hne
  refine ⟨?_, hstart, hend, hduration, hrequests, htraces, ?_⟩
  · rw [windowKey_ofSpans hne hkey, windowKey_ofSpans hne' hkey']
  · simpa using h

end Trace

namespace Assembler
variable {a b b' : Assembler} {t : Timestamp} {xs ys : List Span}

/-! ### Spans in time -/

/-- The time `t` is not passed, and closes none of the slots. -/
structure OpenAt (t : Timestamp) (a : Assembler) : Prop where
  time_le : a.time ≤ t
  lt_closingTime : ∀ s ∈ a.slots, t < a.config.closingTime (a.config.windowOf s.start)

/-- Whether a span comes no later than `t`, and its window is open then. -/
def InTime (c : WindowConfig) (t : Timestamp) (x : Span) : Prop :=
  x.startTime ≤ t ∧ t < c.closingTime (c.windowOf x.startTime)

namespace OpenAt

theorem settled (h : a.OpenAt t) : a.Settled :=
  fun s hs => Int64.lt_of_le_of_lt h.time_le (h.lt_closingTime s hs)

theorem accept (h : a.OpenAt t) (hsound : a.Sound) {x : Span} (hx : InTime a.config t x) :
    (a.accept x).OpenAt t where
  time_le := by
    rw [time_accept]
    exact (Std.LawfulOrderSup.max_le_iff _ _ _).mpr ⟨h.time_le, hx.1⟩
  lt_closingTime := Slot.forall_windowOf_place (P := fun w => t < a.config.closingTime w)
    hsound.valid h.lt_closingTime hx.2

/-- A span in time is not late, it is put into its slot, and that is all. -/
theorem push_eq (h : a.OpenAt t) (hsound : a.Sound) {x : Span} (hx : InTime a.config t x) :
    a.late x = false ∧ a.push x = (a.accept x, { notices :=
      (Slot.place a.config.maxRecordSize (a.windowOf x.startTime) x a.slots).2 }) := by
  have hopen : a.time < a.config.closingTime (a.config.windowOf x.startTime) :=
    Int64.lt_of_le_of_lt h.time_le hx.2
  refine ⟨decide_eq_false ?_, push_of_settled_accept hsound hopen (h.accept hsound hx).settled⟩
  rw [phase_eq_closed_iff hsound.valid]
  exact Int64.not_le.mpr hopen

/-- Spans in time close nothing, and all of them are accepted. -/
theorem run_pushes (h : a.OpenAt t) (hsound : a.Sound) (hxs : ∀ x ∈ xs, InTime a.config t x) :
    (a.run (xs.map .push)).1.OpenAt t ∧ (a.run (xs.map .push)).2.traces = [] ∧
      (∀ n ∈ (a.run (xs.map .push)).2.notices, n.count.1 = .oversizedRecords) ∧
      ∀ known, a.accepted known (xs.map .push) = known ++ xs := by
  induction xs generalizing a with
  | nil => exact ⟨h, rfl, by simp [Assembler.run], fun known => (List.append_nil known).symm⟩
  | cons x xs ih =>
    have hx := hxs x List.mem_cons_self
    obtain ⟨hlate, hpush⟩ := h.push_eq hsound hx
    obtain ⟨hopen, htraces, hnotices, haccepted⟩ := ih (h.accept hsound hx) (hsound.accept x)
      fun y hy => hxs y (.tail _ hy)
    rw [List.map_cons, Assembler.run, show a.perform (.push x) = _ from hpush]
    refine ⟨hopen, htraces, fun n hn => ?_, fun known => ?_⟩
    · rcases List.mem_append.mp hn with hn | hn
      · exact count_place _ n hn
      · exact hnotices n hn
    · rw [accepted, show a.perform (.push x) = _ from hpush, remember, hlate,
        if_neg Bool.false_ne_true, haccepted, List.append_assoc]
      rfl

end OpenAt

/-! ### What is held -/

/-- All of the spans are held, and nothing else. -/
structure Holds (c : WindowConfig) (xs : List Span) (b : Assembler) : Prop where
  config_eq : b.config = c
  sound : b.Sound
  gathers : b.Gathers xs
  opened : ∀ s ∈ b.slots, s.overflowed = false
  inTime : ∀ x ∈ xs, b.time < c.closingTime (c.windowOf x.startTime)

namespace Holds
variable {c : WindowConfig}

theorem spans_eq (h : b.Holds c xs) {s : Slot} (hs : s ∈ b.slots) :
    s.trace.spans = xs.filter fun x => x.address c = s.address := by
  rw [h.gathers.spans_eq s hs (h.opened s hs), h.config_eq]

/-- There is a slot for each address of a span. -/
theorem mem_addresses (h : b.Holds c xs) {p : Timestamp × String} :
    p ∈ b.slots.map Slot.address ↔ ∃ x ∈ xs, x.address c = p := by
  rw [List.mem_map]
  constructor
  · rintro ⟨s, hs, rfl⟩
    obtain ⟨x, hx⟩ := List.exists_mem_of_ne_nil _ ((h.sound.slots s hs).spans_ne (h.opened s hs))
    rw [h.spans_eq hs, List.mem_filter] at hx
    exact ⟨x, hx.1, of_decide_eq_true hx.2⟩
  · rintro ⟨x, hx, rfl⟩
    obtain ⟨s, hs, haddress⟩ := h.gathers.covers x hx (h.config_eq ▸ h.inTime x hx)
    exact ⟨s, hs, h.config_eq ▸ haddress⟩

/-- The addresses of the slots in their order. -/
theorem pairwise_addresses (h : b.Sound) :
    (b.slots.map Slot.address).Pairwise (Prod.Lex (· < ·) (· < ·)) := by
  rw [List.pairwise_map]
  refine List.Pairwise.imp ?_ h.ordered
  intro s u hsu
  exact Prod.lex_def.mpr hsu

theorem addresses_eq (h : b.Holds c xs) (h' : b'.Holds c ys) (hperm : xs.Perm ys) :
    b.slots.map Slot.address = b'.slots.map Slot.address := by
  have hasymm : ∀ p q : Timestamp × String, Prod.Lex (· < ·) (· < ·) p q →
      ¬Prod.Lex (· < ·) (· < ·) q p := by
    intro p q hpq hqp
    rw [Prod.lex_def] at hpq hqp
    grind
  have hsorted := pairwise_addresses h.sound
  have hsorted' := pairwise_addresses h'.sound
  refine List.Perm.eq_of_pairwise (fun p q _ _ hpq hqp => absurd hqp (hasymm p q hpq))
    hsorted hsorted' ?_
  rw [List.perm_ext_iff_of_nodup hsorted.nodup hsorted'.nodup]
  intro p
  rw [h.mem_addresses, h'.mem_addresses]
  simp only [hperm.mem_iff]

theorem traces_eq (h : b.Holds c xs) : b.slots.map Slot.trace
    = (b.slots.map Slot.address).map fun p =>
      Trace.ofSpans (xs.filter fun x => x.address c = p) := by
  rw [List.map_map]
  refine List.map_congr_left fun s hs => ?_
  rw [(h.sound.slots s hs).trace_eq (h.opened s hs), h.spans_eq hs]
  rfl

/-- The traces of the slots agree one by one. -/
theorem forall₂_agree (h : b.Holds c xs) (h' : b'.Holds c ys) (hperm : xs.Perm ys) :
    List.Forall₂ Trace.Agree (b.slots.map Slot.trace) (b'.slots.map Slot.trace) := by
  rw [h.traces_eq, h'.traces_eq, ← h.addresses_eq h' hperm, List.forall₂_map_left_iff,
    List.forall₂_map_right_iff, List.forall₂_same]
  intro p hp
  obtain ⟨x, hx, hxp⟩ := h.mem_addresses.mp hp
  refine Trace.agree_ofSpans (hperm.filter _) ?_ p.2 fun y hy => ?_
  · exact List.ne_nil_of_mem (List.mem_filter.mpr ⟨hx, decide_eq_true hxp⟩)
  · exact congrArg Prod.snd (of_decide_eq_true (List.mem_filter.mp hy).2)

/-- At the end of time every slot emits its trace, if none is too large. -/
theorem traces_advance (h : b.Holds c xs)
    (hsize : Counters.raised .oversizedRecords (b.advance Int64.maxValue).2.notices = 0) :
    (b.advance Int64.maxValue).2.traces = b.slots.map Slot.trace := by
  have hsound : (b.raise Int64.maxValue).Sound := h.sound.prepare (.advance Int64.maxValue)
  have hexpired : b.slots.filter (b.raise Int64.maxValue).expired = b.slots := by
    rw [List.filter_eq_self]
    intro s _
    rw [expired_iff hsound.valid, time_raise]
    exact Int64.le_trans (Int64.le_maxValue _) Std.right_le_max
  have hemit : ∀ s ∈ b.slots, (s.emit b.config).traces = [s.trace] := by
    intro s hs
    have hfits : s.trace.recordSize ≤ b.config.maxRecordSize := by
      by_contra hlarge
      have hmem : Notice.oversized s.key (b.config.windowOf s.start) b.config.maxRecordSize
          ∈ (b.advance Int64.maxValue).2.notices := by
        rw [show b.advance Int64.maxValue = (b.raise Int64.maxValue).close from rfl,
          close_notices hsound, List.mem_flatMap]
        refine ⟨s, hexpired.symm ▸ hs, ?_⟩
        show _ ∈ (s.emit b.config).notices
        simp [Slot.emit, h.opened s hs, hlarge]
      have := Counters.amount_le_raised hmem
      simp only [Notice.count, hsize, Notice.amount] at this
      omega
    simp [Slot.emit, h.opened s hs, hfits]
  show (b.raise Int64.maxValue).close.2.traces = _
  rw [close_traces hsound, show (b.raise Int64.maxValue).slots = b.slots from rfl, hexpired,
    List.map_eq_flatMap]
  exact List.flatMap_congr hemit

end Holds

/-! ### Runs -/

/-- Whether all spans are accepted and held when they are pushed, and nothing is emitted. -/
def AcceptsAll (a : Assembler) (xs : List Span) : Prop :=
  (a.run (xs.map .push)).2 = {} ∧ (a.run (xs.map .push)).1.held.Perm xs

theorem exists_inTime {c : WindowConfig}
    (h : ∀ x ∈ xs, ∀ y ∈ xs, y.startTime < c.closingTime (c.windowOf x.startTime)) :
    ∃ t, ∀ x ∈ xs, InTime c t x := by
  cases hmax : (xs.map Span.startTime).max? with
  | none =>
    rw [List.max?_eq_none_iff, List.map_eq_nil_iff] at hmax
    exact ⟨0, by simp [hmax]⟩
  | some t =>
    obtain ⟨hmem, hle⟩ := List.max?_eq_some_iff.mp hmax
    obtain ⟨y, hy, rfl⟩ := List.mem_map.mp hmem
    exact ⟨y.startTime, fun x hx => ⟨hle _ (List.mem_map_of_mem hx), h x hx y hy⟩⟩

theorem holds_run {c : WindowConfig} (hc : c.Valid) (hxs : ∀ x ∈ xs, InTime c t x)
    (hsize : Counters.raised .oversizedRecords
      (run { config := c } (xs.map .push)).2.notices = 0) :
    AcceptsAll { config := c } xs ∧ Holds c xs (run { config := c } (xs.map .push)).1 := by
  have hsound := sound_new hc
  have hsettled := settled_new c
  have hopen : OpenAt t { config := c } := ⟨Int64.minValue_le t, by simp⟩
  obtain ⟨hopenAt, htraces, hnotices, haccepted⟩ := hopen.run_pushes hsound hxs
  -- each notice would have been one of an oversized record, and there was none
  have hsilent : (run { config := c } (xs.map .push)).2.notices = [] := by
    rw [List.eq_nil_iff_forall_not_mem]
    intro n hn
    have hle := Counters.amount_le_raised hn
    rw [hnotices n hn, hsize] at hle
    have := hnotices n hn
    cases n <;> simp [Notice.count, Notice.amount] at this hle
  have hnone : losses (run { config := c } (xs.map .push)).2.notices = 0 := by
    rw [hsilent, losses_nil]
  have hlate : lateSpans { config := c } (xs.map .push) = [] := by
    rw [← List.length_eq_zero_iff, ← raised_run_late hsound hsettled, hsilent]
    rfl
  have hpushed : pushed (xs.map .push) = xs := by
    rw [pushed, List.filterMap_map]
    exact List.filterMap_some
  refine ⟨⟨?_, ?_⟩, ?_⟩
  · exact congrArg₂ Emission.mk htraces hsilent
  · have hkept := (kept_of_slots_nil hsound hsettled rfl (xs.map .push)).2.2 hnone
    rw [kept, htraces, hlate, hpushed] at hkept
    simpa using hkept
  · have haccount := account_run hsound hsettled (xs.map .push)
    have hgathers := (gathers_new c).run hsound hsettled (xs.map .push)
    rw [haccepted] at hgathers
    refine ⟨run_config hsound hsettled _, hsound.run hsettled _, hgathers, ?_, fun x hx => ?_⟩
    · exact (haccount.intact hnone (by simp)).2
    · exact Int64.lt_of_le_of_lt hopenAt.time_le (hxs x hx).2

/-- Spans of which none can close the window of another may come in any order: all are accepted,
and the traces emitted at the end are the same but for the order of their spans. -/
theorem emitted_agree_of_perm {c : WindowConfig} (h : new? c = .ok a) (hperm : xs.Perm ys)
    (hearly : ∀ x ∈ xs, ∀ y ∈ xs, y.startTime < c.closingTime (c.windowOf x.startTime))
    (hxs : Counters.raised .oversizedRecords
      (a.run (xs.map .push ++ [.advance Int64.maxValue])).2.notices = 0)
    (hys : Counters.raised .oversizedRecords
      (a.run (ys.map .push ++ [.advance Int64.maxValue])).2.notices = 0) :
    a.AcceptsAll xs ∧ a.AcceptsAll ys ∧
      List.Forall₂ Trace.Agree ((a.run (xs.map .push)).1.advance Int64.maxValue).2.traces
        ((a.run (ys.map .push)).1.advance Int64.maxValue).2.traces := by
  obtain ⟨hc, rfl⟩ := new?_eq_ok_iff.mp h
  obtain ⟨t, ht⟩ := exists_inTime hearly
  rw [run_append, run_singleton, Emission.notices_append, Counters.raised_append,
    Nat.add_eq_zero_iff] at hxs hys
  obtain ⟨hx_accepts, hx_holds⟩ := holds_run hc ht hxs.1
  obtain ⟨hy_accepts, hy_holds⟩ := holds_run hc (fun y hy => ht y (hperm.mem_iff.mpr hy)) hys.1
  refine ⟨hx_accepts, hy_accepts, ?_⟩
  rw [hx_holds.traces_advance hxs.2, hy_holds.traces_advance hys.2]
  exact hx_holds.forall₂_agree hy_holds hperm

theorem emitted_agree_of_perm_two_windows :
    let xs : List Span := [{ traceId := "a", spanId := "1", startTime := 100 },
      { traceId := "b", spanId := "2", startTime := 200 },
      { traceId := "a", spanId := "3", startTime := 10500 },
      { traceId := "a", spanId := "4", startTime := 50 }]
    let traces := fun spans : List Span =>
      ((run { config := {} } (spans.map .push)).1.advance Int64.maxValue).2.traces
    (traces xs).length = 3 ∧ List.Forall₂ Trace.Agree (traces xs) (traces xs.reverse) :=
  ⟨by decide +kernel, (emitted_agree_of_perm (c := {}) (a := { config := {} }) rfl
    (List.reverse_perm _).symm (by decide +kernel) (by decide +kernel) (by decide +kernel)).2.2⟩

end Assembler
end CallTrace
