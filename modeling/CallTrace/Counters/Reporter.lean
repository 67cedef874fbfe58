import CallTrace.Counters.Basic
import CallTrace.Log

/-! # The status reporter

A reporter takes the counters once in every period and logs what it took.  Its clock counts
milliseconds from its start; the ticks fall on the positive multiples of the period
(`Reporter.tickTimes`), and a tick that is due at the very end of a sleep falls within it.  A
cancelled reporter ticks no more and leaves the counters alone. -/

namespace CallTrace

structure Reporter where
  period : Nat
  windowSize : Int64
  /-- Whether spans are only counted. -/
  discard : Bool
  now : Nat := 0
  running : Bool := true
deriving DecidableEq, Repr

/-- What the reporter took, and when. -/
structure Tick where
  time : Nat
  taken : Counters
deriving DecidableEq, Repr

namespace Reporter

/-- The lines that report what was taken. -/
def report (r : Reporter) (taken : Counters) : List LogLine :=
  if r.discard then
    [⟨.debug, "Received and discarded " ++ toString taken.receivedSpans.toNat ++ " spans."⟩]
  else
    ⟨.debug, "Received " ++ toString taken.receivedSpans.toNat ++ " spans: "
      ++ toString taken.reconstructedTraces.toNat ++ " traces reconstructed in "
      ++ toString r.windowSize.toInt ++ " ms time window, the spans of "
      ++ toString taken.reducedTraces.toNat ++ " traces have been reduced."⟩
    :: if 0 < taken.lateSpans ∨ 0 < taken.oversizedRecords ∨ 0 < taken.failedPersists then
        [⟨.debug, "Dropped " ++ toString taken.lateSpans.toNat ++ " late spans and "
          ++ toString taken.oversizedRecords.toNat ++ " oversized records, "
          ++ toString taken.failedPersists.toNat ++ " traces failed to persist."⟩]
      else []

/-- The ticks that are due in the next `ms` milliseconds. -/
def tickTimes (r : Reporter) (ms : Nat) : List Nat :=
  let past := r.now / r.period
  (List.range ((r.now + ms) / r.period - past)).map fun i => (past + 1 + i) * r.period

/-- Takes the counters at a tick. -/
def tick (state : Counters × List Tick) (time : Nat) : Counters × List Tick :=
  let (taken, left) := state.1.take
  (left, state.2 ++ [⟨time, taken⟩])

/-- Lets time pass. -/
def sleep (r : Reporter) (ms : Nat) (c : Counters) : Reporter × Counters × List Tick :=
  let later := { r with now := r.now + ms }
  if r.running then
    let (c, ticks) := (r.tickTimes ms).foldl tick (c, [])
    (later, c, ticks)
  else (later, c, [])

/-- Stops the reporter; the line is written once. -/
def cancel (r : Reporter) : Reporter × List LogLine :=
  if r.running then ({ r with running := false }, [⟨.debug, "Status reporter stopped"⟩])
  else (r, [])

end Reporter
end CallTrace
