import CallTrace.Pipeline.Routing
import CallTrace.Pipeline.Worker
import CallTrace.Settings.Basic

/-! # The pipeline

A `Pipeline` is a row of workers, what they share, and the stream watermark, which is the highest
time that anybody has announced.  At the start that is the least timestamp, which stands for no
time at all.

Callers act on a pipeline through a `Call`: commands that go to workers one after the other, and
perhaps a time to announce when they have been sent.  Announcing raises the stream watermark, and
only if it rose tells every worker.  Each step of a call (`Pipeline.stepCall`) is one send or one
announcement, so calls of several callers and steps of workers can alternate at these points;
`Pipeline.call` is a call that nobody interrupts.  A send to a worker that has ended fails, and the
call with it, so the workers after it are not told.

Spans without an operation hash are signed, and every span goes to the worker of its window key
(`Pipeline.ingest`).

Workers may go on in any order.  `Pipeline.settle` lets each one finish before the next, beginning
with the one that was first told something; which worker comes first shows only where workers
compete, as for the last free place of a store. -/

namespace CallTrace

structure Pipeline (σ : Type) where
  depthLimit : Nat
  digest : Digest.Algorithm
  /-- Whether spans are only counted. -/
  discard : Bool
  workers : Array Worker
  shared : Shared σ
  watermark : Timestamp := Int64.minValue
  nextTicket : Nat := 0
  /-- The workers with something left to do, in the order in which it came to them. -/
  ready : List Nat := []

/-- What is left to do of a call. -/
structure Call where
  /-- Commands still to be sent, each with the worker it is for. -/
  sends : List (Nat × Command) := []
  /-- The time to announce after that. -/
  announcement : Option Timestamp := none
deriving DecidableEq, Repr

namespace Pipeline
variable {σ : Type}

/-- Starts the workers. -/
def start (settings : Settings) (store : σ) : Except ConfigError (Pipeline σ) := do
  settings.check
  let depthLimit ← depthLimit? settings.reductionDepth
  let assembler ← Assembler.new? settings.windows
  let started : LogLine := ⟨.debug,
    "Pipeline service started with " ++ toString settings.partitions ++ " partitions"⟩
  let begun := (List.range settings.partitions).map fun i : Nat =>
    (⟨.debug, "Partition worker " ++ toString i ++ " started"⟩ : LogLine)
  return {
    depthLimit := depthLimit
    digest := settings.digest
    discard := settings.discard
    workers := (Array.range settings.partitions).map fun i =>
      { partition := i, assembler := assembler }
    shared := { store := store, log := started :: begun } }

/-- The highest time announced, if there was any. -/
def streamWatermark (p : Pipeline σ) : Option Timestamp :=
  if p.watermark = Int64.minValue then none else some p.watermark

def say (line : LogLine) (p : Pipeline σ) : Pipeline σ := { p with shared := p.shared.say line }

/-! ### Steps of a call -/

/-- Puts a command into the inbox of a worker, unless that has ended. -/
def send? (worker : Nat) (c : Command) (p : Pipeline σ) : Option (Pipeline σ) :=
  match p.workers[worker]? with
  | none => none
  | some w =>
    if w.running then
      some { p with
        workers := p.workers.setIfInBounds worker { w with inbox := w.inbox ++ [c] }
        ready := if p.ready.contains worker then p.ready else p.ready ++ [worker] }
    else none

/-- One command for every worker. -/
def broadcast (c : Command) (p : Pipeline σ) : List (Nat × Command) :=
  (List.range p.workers.size).map fun i => (i, c)

/-- Raises the stream watermark to a time, never lowers it. -/
def raise (time : Timestamp) (p : Pipeline σ) : Pipeline σ :=
  { p with watermark := max p.watermark time }

/-- The next step of a call, and what is left of it then; nothing if that was the last. -/
def stepCall (p : Pipeline σ) : Call → Except PipelineError (Option Call) × Pipeline σ
  | ⟨(worker, c) :: sends, announcement⟩ =>
    match p.send? worker c with
    | none => (.error .channelClosed, p)
    | some p => (.ok (some ⟨sends, announcement⟩), p)
  | ⟨[], some time⟩ =>
    if p.watermark < time then
      (.ok (some ⟨p.broadcast (.advance time), none⟩),
        (p.raise time).say ⟨.trace, "Stream watermark advanced to " ++ toString time.toInt⟩)
    else (.ok none, p)
  | ⟨[], none⟩ => (.ok none, p)

theorem stepCall_decreases {p q : Pipeline σ} {c d : Call}
    (h : p.stepCall c = (.ok (some d), q)) :
    Prod.Lex (· < ·) (· < ·) (d.announcement.toList.length, d.sends.length)
      (c.announcement.toList.length, c.sends.length) := by
  rw [Prod.lex_def]
  unfold stepCall at h
  split at h
  · split at h
    · simp at h
    · simp only [Prod.mk.injEq, Except.ok.injEq, Option.some.injEq] at h
      obtain ⟨rfl, rfl⟩ := h
      simp
  · split at h
    · simp only [Prod.mk.injEq, Except.ok.injEq, Option.some.injEq] at h
      obtain ⟨rfl, rfl⟩ := h
      simp
    · simp at h
  · simp at h

/-- A call from its beginning to its end. -/
def call (p : Pipeline σ) (c : Call) : Except PipelineError Unit × Pipeline σ :=
  match _h : p.stepCall c with
  | (.error e, q) => (.error e, q)
  | (.ok none, q) => (.ok (), q)
  | (.ok (some d), q) => q.call d
termination_by (c.announcement.toList.length, c.sends.length)
decreasing_by exact stepCall_decreases _h

/-! ### Calls -/

/-- Sends each span of a batch to its worker, those of one worker together, and then announces the
latest start. -/
def routing (spans : List Span) (p : Pipeline σ) : Call :=
  let routed := spans.map fun s => (partitionOf s.windowKey p.workers.size, s)
  let batch (i : Nat) := (routed.filter fun r => r.1 = i).map (·.2)
  { sends := (List.range p.workers.size).filterMap fun i =>
      if (batch i).isEmpty then none else some (i, .ingest (batch i))
    announcement := (spans.map Span.startTime).max? }

def ingestBatch (spans : List Span) (p : Pipeline σ) : Except PipelineError Unit × Pipeline σ :=
  let p := { p with shared := p.shared.count .receivedSpans spans.length.toUInt64 }
  if p.discard then (.ok (), p)
  else p.call (p.routing (spans.map (Span.signed p.digest)))

def ingest (span : Span) (p : Pipeline σ) : Except PipelineError Unit × Pipeline σ :=
  p.ingestBatch [span]

/-- Moves event time on in every partition. -/
def advance (time : Timestamp) (p : Pipeline σ) : Except PipelineError Unit × Pipeline σ :=
  (p.raise time).call { sends := p.broadcast (.advance time) }

/-- Tells every worker to end; windows that are still open are dropped. -/
def shutdown (p : Pipeline σ) : Except PipelineError Unit × Pipeline σ :=
  p.call { sends := p.broadcast .shutdown }

/-! ### Work of the workers -/

/-- Puts a worker back in its place after some work; the end of the last one ends the service. -/
def put (p : Pipeline σ) (i : Nat) (before after : Worker) (shared : Shared σ) : Pipeline σ :=
  let q := { p with
    workers := p.workers.setIfInBounds i after
    shared := shared
    ready := if after.idle then p.ready.filter (· ≠ i) else p.ready }
  if before.running && q.workers.all (fun w => !w.running) then
    q.say ⟨.debug, "Pipeline service stopped"⟩
  else q

/-- The next step of a worker. -/
def stepWorker? [Repository σ] (i : Nat) (p : Pipeline σ) : Option (Pipeline σ) := do
  let w ← p.workers[i]?
  let (after, shared) ← w.step? p.depthLimit p.shared
  return p.put i w after shared

/-- Lets a worker go on until it has nothing to do. -/
def runWorker [Repository σ] (p : Pipeline σ) (i : Nat) : Pipeline σ :=
  match p.workers[i]? with
  | none => p
  | some w =>
    let (after, shared) := w.run p.depthLimit p.shared
    p.put i w after shared

/-- Lets all workers go on until nothing is left to do, first those that were told something, in
the order in which they were. -/
def settle [Repository σ] (p : Pipeline σ) : Pipeline σ :=
  (p.ready ++ List.range p.workers.size).foldl runWorker p

/-! ### Reports -/

/-- Gives up a ticket; reports that come in for it later have no receiver. -/
def withdraw (ticket : Nat) (p : Pipeline σ) : Pipeline σ :=
  { p with shared := { p.shared with
      awaited := p.shared.awaited.filter (· ≠ ticket)
      answers := p.shared.answers.filter (·.1 ≠ ticket) } }

/-- Asks every worker for a report under a new ticket. -/
def requestReports (p : Pipeline σ) : Except PipelineError Nat × Pipeline σ :=
  let ticket := p.nextTicket
  let p := { p with
    nextTicket := ticket + 1
    shared := { p.shared with awaited := ticket :: p.shared.awaited } }
  match p.call { sends := p.broadcast (.report ticket) } with
  | (.ok (), p) => (.ok ticket, p)
  | (.error e, p) => (.error e, p.withdraw ticket)

/-- The report of a worker under a ticket. -/
def report? (ticket worker : Nat) (p : Pipeline σ) : Option PartitionStatus :=
  (p.shared.answers.find? fun a => a.1 = ticket && a.2.partition = worker).map (·.2)

/-- The reports of all workers under a ticket; a worker that has ended without one has dropped
it. -/
def collectReports (ticket : Nat) (p : Pipeline σ) :
    Except PipelineError (List PartitionStatus) × Pipeline σ :=
  let reports := (List.range p.workers.size).mapM fun i => p.report? ticket i
  (match reports with
    | some r => .ok r
    | none => .error .responseDropped,
    p.withdraw ticket)

/-- Waits until all workers have done what they were told before, and returns their reports. -/
def sync [Repository σ] (p : Pipeline σ) :
    Except PipelineError (List PartitionStatus) × Pipeline σ :=
  match p.requestReports with
  | (.error e, p) => (.error e, p.settle)
  | (.ok ticket, p) => p.settle.collectReports ticket

end Pipeline
end CallTrace
