import CallTrace.Reduction
import CallTrace.Store.Repository
import CallTrace.Window.Assembler

/-! # Partition workers

A worker owns the assembler of one partition and works off its inbox in order.  It goes by small
steps (`Worker.step?`): the traces that a span or a time has closed are reduced and saved one by
one before anything else happens, a batch is taken apart span by span, and a request for a report
is answered when it is reached, so all that came before it is done.  What workers have in common,
the store, the counters, the answers and the log, is `Shared`.

A worker ends when it takes a shutdown command, dropping the windows that are still open, or when a
save breaks down under it.  It takes no further step then, and what was left in its inbox is lost.
`Worker.run` goes on until there is nothing to do; every step makes the inbox smaller, or leaves it
alone and saves a trace (`Worker.step?_decreases`). -/

namespace CallTrace

structure PartitionStatus where
  partition : Nat
  watermark : Option Timestamp
  openWindows : Nat
  overflowedWindows : Nat
deriving DecidableEq, Repr

inductive Command where
  | ingest (spans : List Span)
  | advance (time : Timestamp)
  /-- Asks for a report, to be handed in under a ticket. -/
  | report (ticket : Nat)
  | shutdown
deriving DecidableEq, Repr

/-- What all workers of a pipeline share. -/
structure Shared (σ : Type) where
  store : σ
  counters : Counters := {}
  /-- The tickets somebody still waits for. -/
  awaited : List Nat := []
  answers : List (Nat × PartitionStatus) := []
  log : List LogLine := []

namespace Shared
variable {σ : Type}

def say (line : LogLine) (s : Shared σ) : Shared σ := { s with log := s.log ++ [line] }

def count (counter : Counter) (n : UInt64) (s : Shared σ) : Shared σ :=
  { s with counters := s.counters.add counter n }

/-- Counts and logs what an assembler had to say. -/
def note (notices : List Notice) (s : Shared σ) : Shared σ :=
  { s with
    counters := s.counters.record notices
    log := s.log ++ notices.filterMap Notice.log? }

/-- Hands in a report, if somebody still waits for it. -/
def answer (ticket : Nat) (status : PartitionStatus) (s : Shared σ) : Shared σ :=
  if s.awaited.contains ticket then { s with answers := s.answers ++ [(ticket, status)] }
  else s.say ⟨.error, "Failed to send sync response - receiver dropped"⟩

end Shared

structure Worker where
  partition : Nat
  assembler : Assembler
  inbox : List Command := []
  /-- Emitted traces that have not been saved yet. -/
  closed : List Trace := []
  running : Bool := true
deriving DecidableEq, Repr

namespace Worker
variable {σ : Type}

def status (w : Worker) : PartitionStatus where
  partition := w.partition
  watermark := w.assembler.watermark
  openWindows := w.assembler.openWindows
  overflowedWindows := w.assembler.overflowedWindows

/-- Nothing is left to do. -/
def idle (w : Worker) : Bool := w.closed.isEmpty && w.inbox.isEmpty

/-- The worker after its end. -/
def halted (w : Worker) : Worker := { w with inbox := [], closed := [], running := false }

/-- The counter of what became of a trace. -/
def reductionCounter : Reduction → Counter
  | .reduced _ _ => .reducedTraces
  | .unchanged _ _ => .reductionFallbacks

/-- Reduces a trace and saves what it became. -/
def persist [Repository σ] (depthLimit : Nat) (t : Trace) (w : Worker) (s : Shared σ) :
    Worker × Shared σ :=
  let r := t.reduce depthLimit
  let s := (s.say (t.reductionLog r)).count (reductionCounter r) 1
  let key := r.trace.windowKey
  match Repository.save r.trace s.store with
  | (.ok (), store) =>
    (w, ({ s with store := store }.say ⟨.trace, "Persisted trace " ++ key⟩).count
      .persistedTraces 1)
  | (.error (.refused e), store) =>
    (w, ({ s with store := store }.say
      ⟨.error, "Failed to persist trace " ++ key ++ ": " ++ e.message⟩).count .failedPersists 1)
  | (.error .crashed, store) =>
    (w.halted, { s with store := store }.say ⟨.error, "Partition worker failed"⟩)

/-- The next step of a worker; nothing if it has ended or has nothing to do. -/
def step? [Repository σ] (depthLimit : Nat) (w : Worker) (s : Shared σ) :
    Option (Worker × Shared σ) :=
  if w.running then
    match w.closed with
    | t :: closed => some (persist depthLimit t { w with closed := closed } s)
    | [] =>
      match w.inbox with
      | [] => none
      | .ingest [] :: inbox => some ({ w with inbox := inbox }, s)
      | .ingest (span :: spans) :: inbox =>
        let (a, e) := w.assembler.push span
        some ({ w with assembler := a, inbox := .ingest spans :: inbox, closed := e.traces },
          s.note e.notices)
      | .advance time :: inbox =>
        let (a, e) := w.assembler.advance time
        some ({ w with assembler := a, inbox := inbox, closed := e.traces }, s.note e.notices)
      | .report ticket :: inbox => some ({ w with inbox := inbox }, s.answer ticket w.status)
      | .shutdown :: _ =>
        let (a, n, notices) := w.assembler.discard
        some ({ w with assembler := a }.halted,
          (s.note notices).say ⟨.debug, "Partition worker " ++ toString w.partition
            ++ " stopped, discarded " ++ toString n ++ " open windows"⟩)
  else none

/-- How much is left to take from an inbox. -/
def load : List Command → Nat
  | [] => 0
  | .ingest spans :: inbox => 1 + spans.length + load inbox
  | _ :: inbox => 1 + load inbox

theorem persist_decreases [Repository σ] (depthLimit : Nat) (t : Trace) (w : Worker)
    (s : Shared σ) :
    let r := persist depthLimit t w s
    load r.1.inbox ≤ load w.inbox ∧ r.1.closed.length ≤ w.closed.length := by
  dsimp only [persist]
  split <;> simp [halted, load]

theorem step?_decreases [Repository σ] {depthLimit : Nat} {w : Worker} {s : Shared σ}
    {r : Worker × Shared σ} (h : step? depthLimit w s = some r) :
    load r.1.inbox < load w.inbox ∨
      load r.1.inbox ≤ load w.inbox ∧ r.1.closed.length < w.closed.length := by
  unfold step? at h
  split at h
  · split at h
    · next t closed hc =>
      simp only [Option.some.injEq] at h
      subst h
      have := persist_decreases depthLimit t { w with closed := closed } s
      dsimp only at this
      right
      rw [hc]
      simp only [List.length_cons]
      omega
    · left
      split at h
      · simp at h
      all_goals
        next hi =>
          simp only [Option.some.injEq] at h
          subst h
          simp [hi, load, halted]
          try omega
  · simp at h

/-- Works until there is nothing to do. -/
def run [Repository σ] (depthLimit : Nat) (w : Worker) (s : Shared σ) : Worker × Shared σ :=
  match _h : step? depthLimit w s with
  | none => (w, s)
  | some (w', s') => run depthLimit w' s'
termination_by (load w.inbox, w.closed.length)
decreasing_by
  have := step?_decreases _h
  dsimp only at this
  rw [Prod.lex_def]
  omega

end Worker
end CallTrace
