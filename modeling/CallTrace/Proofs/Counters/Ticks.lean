import CallTrace.Counters.Reporter
import CallTrace.Proofs.Counters.Threads

/-! # What a reporter takes

Amounts arrive while time passes, and a reporter takes the counters at the multiples of its period.
An arrival has the time that the clock shows (`Reporter.arrivals`), and a tick that is due at the end of
a sleep falls within the sleep, so what arrives at the time of a tick arrives after it.  So tick `n`, the
first of them being tick 0, takes what arrives from `n` periods on and before `n + 1` periods
(`Reporter.due`), and what arrives after the last tick stays in the counters.

One step keeps this (`Watch.Kept`), in a sleep from one tick to the next (`Reporter.foldl_tick_due`). -/

namespace CallTrace

open Counters (tally amount)

/-! ### Arrivals -/

namespace Reporter

/-- What may happen while a reporter runs. -/
inductive Step where
  | add (counter : Counter) (n : UInt64)
  | sleep (ms : Nat)
  | cancel
deriving DecidableEq, Repr

/-- An amount that is added for a counter, and when. -/
structure Arrival where
  time : Nat
  amount : Counter × UInt64
deriving DecidableEq, Repr

/-- The amounts that steps add, with a clock that shows `now` when they begin. -/
def arrivals (now : Nat) : List Step → List Arrival
  | [] => []
  | .add k n :: steps => ⟨now, k, n⟩ :: arrivals now steps
  | .sleep ms :: steps => arrivals (now + ms) steps
  | .cancel :: steps => arrivals now steps

/-- When steps cancel the reporter for the first time, or else when they are over. -/
def ending (now : Nat) : List Step → Nat
  | [] => now
  | .add _ _ :: steps => ending now steps
  | .sleep ms :: steps => ending (now + ms) steps
  | .cancel :: _ => now

/-- The amounts that arrive from one time on and before another. -/
def between (first last : Nat) (adds : List Arrival) : List (Counter × UInt64) :=
  (adds.filter fun x => first ≤ x.time ∧ x.time < last).map Arrival.amount

/-- The amounts that arrive from a time on. -/
def since (first : Nat) (adds : List Arrival) : List (Counter × UInt64) :=
  (adds.filter fun x => first ≤ x.time).map Arrival.amount

/-- The tick that takes what arrives in period `n`. -/
def due (period : Nat) (adds : List Arrival) (n : Nat) : Tick :=
  ⟨(n + 1) * period, tally {} (between (n * period) ((n + 1) * period) adds)⟩

variable {adds : List Arrival} {x : Arrival} {first last period a : Nat}

theorem since_append_of_le (h : first ≤ x.time) :
    since first (adds ++ [x]) = since first adds ++ [x.amount] := by
  simp [since, h]

theorem between_append_of_le (h : last ≤ x.time) :
    between first last (adds ++ [x]) = between first last adds := by
  simp [between, h]

theorem since_eq_nil (h : ∀ x ∈ adds, x.time < first) : since first adds = [] := by
  simpa [since] using h

theorem between_eq_since (h : ∀ x ∈ adds, x.time < last) :
    between first last adds = since first adds := by
  rw [between, since]
  congr 1
  refine List.filter_congr fun x hx => ?_
  simp [h x hx]

/-! ### Ticks -/

theorem foldl_tick (times : List Nat) (c : Counters) (ticks : List Tick) :
    times.foldl tick (c, ticks)
      = ((times.foldl tick (c, [])).1, ticks ++ (times.foldl tick (c, [])).2) := by
  induction times generalizing c ticks with
  | nil => simp
  | cons time times ih =>
    rw [List.foldl_cons, List.foldl_cons, tick, tick, ih, ih _ ([] ++ [_])]
    simp

/-- The ticks that fall due after the last arrival: the first takes what has arrived since the tick
before it, and the others find the counters empty. -/
theorem foldl_tick_due (h : ∀ x ∈ adds, x.time < (a + 1) * period) (m : Nat) :
    ((List.range m).map fun i => (a + 1 + i) * period).foldl tick
        (tally {} (since (a * period) adds), (List.range a).map (due period adds))
      = (tally {} (since ((a + m) * period) adds), (List.range (a + m)).map (due period adds)) := by
  induction m with
  | zero => rfl
  | succ m ih =>
    have hlater (x) (hx : x ∈ adds) : x.time < (a + m + 1) * period :=
      Nat.lt_of_lt_of_le (h x hx) (Nat.mul_le_mul_right _ (by omega))
    have hdue : due period adds (a + m)
        = ⟨(a + 1 + m) * period, tally {} (since ((a + m) * period) adds)⟩ := by
      rw [due, between_eq_since hlater, Nat.add_right_comm]
    rw [List.range_succ, List.map_append, List.foldl_append, ih, ← Nat.add_assoc, List.range_succ,
      List.map_append, since_eq_nil hlater]
    simp only [List.map_cons, List.map_nil, hdue]
    rfl

end Reporter

/-! ### Runs -/

/-- A reporter, the counters that it takes, and its ticks so far. -/
structure Watch where
  reporter : Reporter
  counters : Counters := {}
  ticks : List Tick := []
deriving DecidableEq, Repr

namespace Watch
open Reporter

/-- A reporter that has just been started. -/
def start (period : Nat) (windowSize : Int64) (discard : Bool) : Watch :=
  { reporter := { period, windowSize, discard } }

def step (w : Watch) : Step → Watch
  | .add k n => { w with counters := w.counters.add k n }
  | .sleep ms =>
    let (reporter, counters, ticks) := w.reporter.sleep ms w.counters
    ⟨reporter, counters, w.ticks ++ ticks⟩
  | .cancel => { w with reporter := w.reporter.cancel.1 }

def run (steps : List Step) (w : Watch) : Watch := steps.foldl step w

/-- What has come of a reporter: `adds` has arrived, and the reporter has run until `active`. -/
structure Kept (w : Watch) (adds : List Arrival) (active : Nat) : Prop where
  period_pos : 0 < w.reporter.period
  active_le : active ≤ w.reporter.now
  active_eq : w.reporter.running = true → active = w.reporter.now
  time_le : ∀ x ∈ adds, x.time ≤ w.reporter.now
  counters_eq : w.counters = tally {} (since (active / w.reporter.period * w.reporter.period) adds)
  ticks_eq : w.ticks = (List.range (active / w.reporter.period)).map (due w.reporter.period adds)

variable {w : Watch} {adds : List Arrival} {active : Nat}

theorem run_append (steps steps' : List Step) (w : Watch) :
    w.run (steps ++ steps') = (w.run steps).run steps' := List.foldl_append

theorem Kept.add (h : w.Kept adds active) (k : Counter) (n : UInt64) :
    (w.step (.add k n)).Kept (adds ++ [⟨w.reporter.now, k, n⟩]) active := by
  have hlast : active / w.reporter.period * w.reporter.period ≤ w.reporter.now :=
    Nat.le_trans (Nat.div_mul_le_self ..) h.active_le
  refine ⟨h.period_pos, h.active_le, h.active_eq, ?time, ?counters, ?ticks⟩
  case time =>
    intro x hx
    rcases List.mem_append.mp hx with hx | hx
    · exact h.time_le x hx
    · obtain rfl := List.mem_singleton.mp hx
      exact Nat.le_refl _
  case counters =>
    show w.counters.add k n = tally {} (since (active / w.reporter.period * w.reporter.period) _)
    rw [since_append_of_le hlast, Counters.tally_append, ← h.counters_eq]
    rfl
  case ticks =>
    refine h.ticks_eq.trans (List.map_congr_left fun i hi => ?_)
    have hi : (i + 1) * w.reporter.period ≤ w.reporter.now :=
      Nat.le_trans (Nat.mul_le_mul_right _ (List.mem_range.mp hi)) hlast
    show due w.reporter.period adds i = due w.reporter.period _ i
    rw [due, due, between_append_of_le hi]

theorem step_sleep_of_running (h : w.reporter.running = true) (ms : Nat) :
    w.step (.sleep ms) = ⟨{ w.reporter with now := w.reporter.now + ms },
      ((w.reporter.tickTimes ms).foldl tick (w.counters, w.ticks)).1,
      ((w.reporter.tickTimes ms).foldl tick (w.counters, w.ticks)).2⟩ := by
  rw [foldl_tick]
  simp [step, sleep, h]

theorem step_sleep_of_stopped (h : w.reporter.running = false) (ms : Nat) :
    w.step (.sleep ms) = { w with reporter := { w.reporter with now := w.reporter.now + ms } } := by
  simp [step, sleep, h]

theorem step_sleep_reporter (w : Watch) (ms : Nat) :
    (w.step (.sleep ms)).reporter = { w.reporter with now := w.reporter.now + ms } := by
  cases hw : w.reporter.running with
  | true => rw [step_sleep_of_running hw]
  | false => rw [step_sleep_of_stopped hw]

theorem step_cancel (w : Watch) :
    w.step .cancel = { w with reporter := { w.reporter with running := false } } := by
  obtain ⟨⟨period, windowSize, discard, now, running⟩, counters, ticks⟩ := w
  cases running <;> rfl

theorem Kept.sleep_running (h : w.Kept adds active) (hw : w.reporter.running = true) (ms : Nat) :
    (w.step (.sleep ms)).Kept adds (w.reporter.now + ms) := by
  obtain rfl := h.active_eq hw
  have hsum : w.reporter.now / w.reporter.period
      + ((w.reporter.now + ms) / w.reporter.period - w.reporter.now / w.reporter.period)
      = (w.reporter.now + ms) / w.reporter.period :=
    Nat.add_sub_cancel' (Nat.div_le_div_right (Nat.le_add_right ..))
  have hpast (x) (hx : x ∈ adds) :
      x.time < (w.reporter.now / w.reporter.period + 1) * w.reporter.period := by
    rw [Nat.mul_comm]
    exact Nat.lt_of_le_of_lt (h.time_le x hx) (Nat.lt_mul_div_succ _ h.period_pos)
  have hticks := foldl_tick_due hpast
    ((w.reporter.now + ms) / w.reporter.period - w.reporter.now / w.reporter.period)
  rw [← h.counters_eq, ← h.ticks_eq, hsum] at hticks
  rw [step_sleep_of_running hw, tickTimes, hticks]
  exact ⟨h.period_pos, Nat.le_refl _, fun _ => rfl,
    fun x hx => Nat.le_trans (h.time_le x hx) (Nat.le_add_right ..), rfl, rfl⟩

theorem Kept.sleep_stopped (h : w.Kept adds active) (hw : w.reporter.running = false) (ms : Nat) :
    (w.step (.sleep ms)).Kept adds active := by
  rw [step_sleep_of_stopped hw]
  exact ⟨h.period_pos, Nat.le_trans h.active_le (Nat.le_add_right ..),
    fun hrunning => by simp [hw] at hrunning,
    fun x hx => Nat.le_trans (h.time_le x hx) (Nat.le_add_right ..), h.counters_eq, h.ticks_eq⟩

theorem Kept.cancel (h : w.Kept adds active) : (w.step .cancel).Kept adds active := by
  rw [step_cancel]
  exact ⟨h.period_pos, h.active_le, nofun, h.time_le, h.counters_eq, h.ticks_eq⟩

theorem Kept.run_stopped (h : w.Kept adds active) (hw : w.reporter.running = false)
    (steps : List Step) : (w.run steps).Kept (adds ++ arrivals w.reporter.now steps) active := by
  induction steps generalizing w adds with
  | nil =>
    rw [arrivals, List.append_nil]
    exact h
  | cons step steps ih =>
    cases step with
    | add k n =>
      have hrun := ih (h.add k n) hw
      rwa [List.append_assoc] at hrun
    | sleep ms =>
      have hrun := ih (h.sleep_stopped hw ms) (by rw [step_sleep_reporter]; exact hw)
      rw [step_sleep_reporter] at hrun
      exact hrun
    | cancel =>
      have hrun := ih h.cancel (by rw [step_cancel])
      rw [step_cancel] at hrun
      rw [run, List.foldl_cons, step_cancel]
      exact hrun

theorem Kept.run_running (h : w.Kept adds active) (hw : w.reporter.running = true)
    (steps : List Step) :
    (w.run steps).Kept (adds ++ arrivals w.reporter.now steps) (ending w.reporter.now steps) := by
  induction steps generalizing w adds active with
  | nil =>
    rw [arrivals, ending, List.append_nil, ← h.active_eq hw]
    exact h
  | cons step steps ih =>
    cases step with
    | add k n =>
      have hrun := ih (h.add k n) hw
      rwa [List.append_assoc] at hrun
    | sleep ms =>
      have hrun := ih (h.sleep_running hw ms) (by rw [step_sleep_reporter]; exact hw)
      rw [step_sleep_reporter] at hrun
      exact hrun
    | cancel =>
      obtain rfl := h.active_eq hw
      have hrun := h.cancel.run_stopped (by rw [step_cancel]) steps
      rw [step_cancel] at hrun
      rw [run, List.foldl_cons, step_cancel]
      exact hrun

/-- A reporter that was stopped ticks no more. -/
theorem run_ticks_of_stopped (hw : w.reporter.running = false) (steps : List Step) :
    (w.run steps).ticks = w.ticks := by
  induction steps generalizing w with
  | nil => rfl
  | cons step steps ih =>
    cases step with
    | add k n => exact ih (w := w.step (.add k n)) hw
    | sleep ms =>
      show ((w.step (.sleep ms)).run steps).ticks = _
      rw [step_sleep_of_stopped hw]
      exact ih hw
    | cancel =>
      show ((w.step .cancel).run steps).ticks = _
      rw [step_cancel]
      exact ih rfl

theorem run_period (steps : List Step) (w : Watch) :
    (w.run steps).reporter.period = w.reporter.period := by
  induction steps generalizing w with
  | nil => rfl
  | cons step steps ih =>
    refine (ih (w.step step)).trans ?_
    cases step with
    | add k n => rfl
    | sleep ms => rw [step_sleep_reporter]
    | cancel => rw [step_cancel]

theorem Kept.length_ticks (h : w.Kept adds active) :
    w.ticks.length = active / w.reporter.period := by
  rw [h.ticks_eq, List.length_map, List.length_range]

theorem Kept.getElem_ticks (h : w.Kept adds active) {n : Nat} (hn : n < w.ticks.length) :
    w.ticks[n] = due w.reporter.period adds n := by
  simp only [h.ticks_eq, List.getElem_map, List.getElem_range]

theorem start_kept {period : Nat} (hperiod : 0 < period) (windowSize : Int64) (discard : Bool) :
    (start period windowSize discard).Kept [] 0 := by
  refine ⟨hperiod, Nat.le_refl _, fun _ => rfl, nofun, rfl, ?_⟩
  show [] = (List.range (0 / period)).map _
  rw [Nat.zero_div]
  rfl

end Watch

/-! ### Both -/

namespace Counters
open Reporter (Step arrivals ending between since)

/-- Nothing that is added is lost or taken twice.

Threads make their steps in any order.  At every moment what takes have returned, what the takes that
are under way have swapped out, and what the cell shows amount together to what was added, up to a
multiple of the range of a cell.

A reporter ticks once in every period until it is cancelled.  A tick takes what has arrived since the
tick before it, what has arrived since the last one is still there, and none comes after a cancel. -/
theorem taken_exactly_once {period : Nat} (hperiod : 0 < period) (windowSize : Int64)
    (discard : Bool) :
    (∀ (programs : List (List Call)) (schedule : List Nat),
      let s := (Sharing.start programs).run schedule
      (∀ k, (total k (s.taken ++ s.held) + (s.counters.get k).toNat) % UInt64.size
        = amount k s.added % UInt64.size)
      ∧ ((∀ t ∈ s.threads, t.reading = none) → s.held = [])
      ∧ (s.added ++ s.unadded).Perm (programs.flatMap fun calls => calls.flatMap Call.amounts))
    ∧ ∀ steps : List Step,
      let w := (Watch.start period windowSize discard).run steps
      let adds := arrivals 0 steps
      w.ticks.length = ending 0 steps / period
      ∧ (∀ n (hn : n < w.ticks.length), w.ticks[n].time = (n + 1) * period
        ∧ ∀ k, (w.ticks[n].taken.get k).toNat
          = amount k (between (n * period) ((n + 1) * period) adds) % UInt64.size)
      ∧ (∀ k, (w.counters.get k).toNat
        = amount k (since (w.ticks.length * period) adds) % UInt64.size)
      ∧ ∀ more, ((Watch.start period windowSize discard).run (steps ++ .cancel :: more)).ticks
        = w.ticks := by
  refine ⟨fun programs schedule => ⟨?balance, Sharing.held_eq_nil, ?programs⟩, fun steps => ?ticks⟩
  case balance => exact Sharing.run_balance programs schedule
  case programs => exact Sharing.run_unadded programs schedule
  case ticks =>
    intro w adds
    have hw : w.reporter.period = period := Watch.run_period steps _
    have hkept : w.Kept adds (ending 0 steps) :=
      (Watch.start_kept hperiod windowSize discard).run_running rfl steps
    have hlength := hkept.length_ticks
    refine ⟨hw ▸ hlength, fun n hn => ?tick, fun k => ?left, fun more => ?cancelled⟩
    case tick =>
      rw [hkept.getElem_ticks hn, hw]
      exact ⟨rfl, toNat_get_tally_empty _⟩
    case left =>
      rw [hkept.counters_eq, hlength, hw, toNat_get_tally_empty]
    case cancelled =>
      rw [Watch.run_append]
      show ((w.step .cancel).run more).ticks = w.ticks
      rw [Watch.run_ticks_of_stopped (by rw [Watch.step_cancel]), Watch.step_cancel]

/-- A cell wraps around while a take is under way, and a reporter sleeps over some of its ticks. -/
theorem taken_exactly_once_amid_a_take :
    0 < 10
    ∧ (let s := (Sharing.start [[.take], [.add .receivedSpans 5, .incr .lateSpans,
          .add .receivedSpans 18446744073709551615]]).run [1, 0, 0, 1, 1, 0]
      s.held = [{ receivedSpans := 5, lateSpans := 1 }]
      ∧ s.counters = { receivedSpans := 18446744073709551615 }
      ∧ (total .receivedSpans (s.taken ++ s.held) + (s.counters.get .receivedSpans).toNat)
          % UInt64.size = amount .receivedSpans s.added % UInt64.size)
    ∧ (let steps : List Step := [.add .receivedSpans 3, .sleep 10, .add .receivedSpans 4, .sleep 25,
          .add .lateSpans 2, .cancel, .sleep 100, .add .receivedSpans 1]
      let w := (Watch.start 10 0 false).run steps
      w.ticks = [⟨10, { receivedSpans := 3 }⟩, ⟨20, { receivedSpans := 4 }⟩, ⟨30, {}⟩]
      ∧ w.counters = { receivedSpans := 1, lateSpans := 2 }
      ∧ w.ticks.length = ending 0 steps / 10
      ∧ (w.counters.get .lateSpans).toNat
        = amount .lateSpans (since (w.ticks.length * 10) (arrivals 0 steps)) % UInt64.size) := by
  obtain ⟨hthreads, hreporter⟩ := taken_exactly_once (by decide : 0 < 10) 0 false
  exact ⟨by decide, ⟨by decide, by decide, (hthreads _ _).1 .receivedSpans⟩,
    by decide, by decide, (hreporter _).1, (hreporter _).2.2.1 .lateSpans⟩

end Counters
end CallTrace
