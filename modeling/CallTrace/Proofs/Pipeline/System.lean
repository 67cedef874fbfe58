import CallTrace.Pipeline.Basic
import CallTrace.Proofs.Pipeline.Worker

/-! # Callers and workers side by side

A `System` is a pipeline with callers.  Each caller has a script of requests, which it makes one
after the other: a request begins (`Pipeline.begin`), its call goes on send by send, and a request
for reports waits until they are in.  In every move one actor takes one step, a caller or a worker,
and nothing is said about whose turn it is: a schedule is any list of actors (`System.run`).  An
actor that cannot go on lets its turn pass.

Nobody in between, requests are what a pipeline offers its callers (`Pipeline.ingestBatch_eq`,
`Pipeline.advance_eq`, `Pipeline.shutdown_eq`, `Pipeline.requestReports_eq`).

Callers write into inboxes and say what they want, but leave alone what workers have
(`Caller.sameWork_step`), so what every step of a worker keeps is kept by every schedule
(`System.run_induction`). -/

namespace CallTrace

inductive Request where
  | ingest (spans : List Span)
  | advance (time : Timestamp)
  | sync
  | shutdown
deriving DecidableEq, Repr

/-- What comes back from a request: reports, if it asked for any. -/
abbrev Reply := Except PipelineError (List PartitionStatus)

/-- A request that has begun. -/
inductive Task where
  /-- The rest of its call, and the ticket of the reports it asks for. -/
  | sending (request : Request) (ticket : Option Nat) (call : Call)
  | waiting (ticket : Nat)
deriving DecidableEq, Repr

structure Caller where
  script : List Request
  task : Option Task := none
  replies : List (Request × Reply) := []

structure System (σ : Type) where
  pipeline : Pipeline σ
  callers : List Caller

inductive Actor where
  | caller (i : Nat)
  | worker (i : Nat)
deriving DecidableEq, Repr

/-! ### Requests -/

namespace Pipeline
variable {σ : Type}

/-- What a request changes at once, and the call that is left of it. -/
def begin (p : Pipeline σ) : Request → Pipeline σ × Call
  | .ingest spans =>
    ({ p with shared := p.shared.count .receivedSpans spans.length.toUInt64 },
      if p.discard then {} else p.routing (spans.map (Span.signed p.digest)))
  | .advance time => (p.raise time, { sends := p.broadcast (.advance time) })
  | .sync =>
    ({ p with
        nextTicket := p.nextTicket + 1
        shared := { p.shared with awaited := p.nextTicket :: p.shared.awaited } },
      { sends := p.broadcast (.report p.nextTicket) })
  | .shutdown => (p, { sends := p.broadcast .shutdown })

/-- The ticket of the reports that a request asks for. -/
def ticket? (p : Pipeline σ) : Request → Option Nat
  | .sync => some p.nextTicket
  | _ => none

/-- Whether reports are still to come in before those of a ticket can be collected.  They are
collected in the order of the workers, and the first that is missing for good ends that. -/
def isWaiting (ticket : Nat) (p : Pipeline σ) : Bool :=
  match (List.range p.workers.size).find? fun i => (p.report? ticket i).isNone with
  | none => false
  | some i => p.workers[i]?.any (·.running)

theorem call_done (p : Pipeline σ) : p.call {} = (.ok (), p) := by
  rw [call]
  rfl

theorem ingestBatch_eq (spans : List Span) (p : Pipeline σ) :
    p.ingestBatch spans = (p.begin (.ingest spans)).1.call (p.begin (.ingest spans)).2 := by
  cases h : p.discard with
  | true =>
    simp only [ingestBatch, begin, h, if_true]
    rw [call_done]
  | false =>
    simp only [ingestBatch, begin, h, Bool.false_eq_true, if_false]
    rfl

theorem advance_eq (time : Timestamp) (p : Pipeline σ) :
    p.advance time = (p.begin (.advance time)).1.call (p.begin (.advance time)).2 := rfl

theorem shutdown_eq (p : Pipeline σ) :
    p.shutdown = (p.begin .shutdown).1.call (p.begin .shutdown).2 := rfl

theorem requestReports_eq (p : Pipeline σ) :
    p.requestReports = match (p.begin .sync).1.call (p.begin .sync).2 with
      | (.ok (), q) => (.ok p.nextTicket, q)
      | (.error e, q) => (.error e, q.withdraw p.nextTicket) := rfl

end Pipeline

/-! ### Moves -/

namespace Caller
variable {σ : Type}

/-- The caller with its request answered. -/
def answered (c : Caller) (request : Request) (reply : Reply) : Caller :=
  { c with task := none, replies := c.replies ++ [(request, reply)] }

def step (c : Caller) (p : Pipeline σ) : Caller × Pipeline σ :=
  match c.task, c.script with
  | none, [] => (c, p)
  | none, request :: script =>
    let (q, call) := p.begin request
    ({ c with script := script, task := some (.sending request (p.ticket? request) call) }, q)
  | some (.sending request ticket call), _ =>
    match p.stepCall call, ticket with
    | (.ok (some call), q), _ => ({ c with task := some (.sending request ticket call) }, q)
    | (.ok none, q), none => (c.answered request (.ok []), q)
    | (.ok none, q), some ticket => ({ c with task := some (.waiting ticket) }, q)
    | (.error e, q), none => (c.answered request (.error e), q)
    | (.error e, q), some ticket => (c.answered request (.error e), q.withdraw ticket)
  | some (.waiting ticket), _ =>
    if p.isWaiting ticket then (c, p)
    else
      let (reply, q) := p.collectReports ticket
      (c.answered .sync reply, q)

end Caller

namespace System
variable {σ : Type}

/-- A pipeline and callers with these scripts, none of which has begun. -/
def start (p : Pipeline σ) (scripts : List (List Request)) : System σ where
  pipeline := p
  callers := scripts.map fun script => { script := script }

def move [Repository σ] (s : System σ) : Actor → System σ
  | .caller i =>
    match s.callers[i]? with
    | none => s
    | some c => { pipeline := (c.step s.pipeline).2, callers := s.callers.set i (c.step s.pipeline).1 }
  | .worker i =>
    match s.pipeline.stepWorker? i with
    | none => s
    | some p => { s with pipeline := p }

/-- Lets the actors of a schedule move one after the other. -/
def run [Repository σ] (s : System σ) (schedule : List Actor) : System σ := schedule.foldl move s

/-- All callers are done with their scripts, and all inboxes are empty. -/
def Drained (s : System σ) : Prop :=
  (∀ c ∈ s.callers, c.task = none ∧ c.script = []) ∧ ∀ w ∈ s.pipeline.workers, w.idle = true

instance (s : System σ) : Decidable s.Drained := inferInstanceAs (Decidable (_ ∧ _))

end System

/-! ### What callers leave alone -/

namespace Pipeline
variable {σ : Type} {p q r : Pipeline σ}

/-- Whether two pipelines are equal up to inboxes and what is counted, announced or said. -/
structure SameWork (p q : Pipeline σ) : Prop where
  depthLimit : q.depthLimit = p.depthLimit
  store : q.shared.store = p.shared.store
  workers : q.workers.map (fun w => { w with inbox := [] })
    = p.workers.map fun w => { w with inbox := [] }

theorem SameWork.refl (p : Pipeline σ) : SameWork p p := ⟨rfl, rfl, rfl⟩

theorem SameWork.trans (h : SameWork p q) (h' : SameWork q r) : SameWork p r :=
  ⟨h'.depthLimit.trans h.depthLimit, h'.store.trans h.store, h'.workers.trans h.workers⟩

/-- A worker differs from what it was at most in its inbox. -/
theorem SameWork.exists_worker (h : SameWork p q) {w : Worker} (hw : w ∈ q.workers) :
    ∃ v ∈ p.workers, w = { v with inbox := w.inbox } := by
  have hmem : { w with inbox := [] } ∈ p.workers.map fun v => { v with inbox := [] } := by
    rw [← h.workers]
    exact Array.mem_map_of_mem hw
  obtain ⟨v, hv, e⟩ := Array.mem_map.mp hmem
  refine ⟨v, hv, ?_⟩
  cases w
  cases v
  simp_all

theorem send?_of_running {worker : Nat} {w : Worker} (hw : p.workers[worker]? = some w)
    (h : w.running = true) (c : Command) :
    ∃ ready, p.send? worker c = some { p with
      workers := p.workers.setIfInBounds worker { w with inbox := w.inbox ++ [c] }
      ready := ready } := by
  simp only [send?, hw, if_pos h]
  exact ⟨_, rfl⟩

theorem sameWork_begin (p : Pipeline σ) (request : Request) :
    SameWork p (p.begin request).1 := by
  cases request <;> exact ⟨rfl, rfl, rfl⟩

theorem sameWork_send? {worker : Nat} {c : Command} (h : p.send? worker c = some q) :
    SameWork p q := by
  unfold send? at h
  split at h
  · simp at h
  · next w hw =>
    split at h
    · obtain rfl : _ = q := Option.some.inj h
      refine ⟨rfl, rfl, ?_⟩
      apply Array.ext_getElem?
      intro i
      simp only [Array.getElem?_map, Array.getElem?_setIfInBounds]
      by_cases hi : worker = i
      · subst hi
        have hlt := (Array.getElem?_eq_some_iff.mp hw).1
        rw [if_pos rfl, if_pos hlt, hw]
        rfl
      · rw [if_neg hi]
    · simp at h

theorem sameWork_stepCall (p : Pipeline σ) (c : Call) : SameWork p (p.stepCall c).2 := by
  unfold stepCall
  split
  · split
    · exact .refl p
    · next h => exact sameWork_send? h
  · split
    · exact ⟨rfl, rfl, rfl⟩
    · exact .refl p
  · exact .refl p

end Pipeline

theorem Caller.sameWork_step {σ : Type} (c : Caller) (p : Pipeline σ) :
    Pipeline.SameWork p (c.step p).2 := by
  unfold step
  split
  · exact .refl p
  · exact p.sameWork_begin _
  · next call _ =>
    have := p.sameWork_stepCall call
    split <;> rename_i hcall _ <;> rw [hcall] at this
    · exact this
    · exact this
    · exact this
    · exact this
    · exact this.trans ⟨rfl, rfl, rfl⟩
  · split
    · exact .refl p
    · exact ⟨rfl, rfl, rfl⟩

/-! ### Workers in their places -/

/-- A worker that takes a step goes back to its place, and the others stay as they are. -/
theorem Pipeline.stepWorker?_eq_some {σ : Type} [Repository σ] {i : Nat} {p q : Pipeline σ}
    (h : p.stepWorker? i = some q) :
    ∃ w w' shared, p.workers[i]? = some w ∧ w.running = true ∧
      Worker.Step p.depthLimit w p.shared w' shared ∧ q.workers = p.workers.setIfInBounds i w' ∧
      q.shared.store = shared.store ∧ q.shared.counters = shared.counters ∧
      q.depthLimit = p.depthLimit ∧ q.digest = p.digest ∧ q.discard = p.discard ∧
      q.watermark = p.watermark := by
  obtain ⟨w, hw, h⟩ := Option.bind_eq_some_iff.mp h
  obtain ⟨⟨w', shared⟩, hstep, h⟩ := Option.bind_eq_some_iff.mp h
  obtain ⟨hrunning, hstep⟩ := Worker.step_of_step?_eq_some hstep
  obtain rfl : _ = q := Option.some.inj h
  refine ⟨w, w', shared, hw, hrunning, hstep, ?_⟩
  simp only [put]
  split <;> exact ⟨rfl, rfl, rfl, rfl, rfl, rfl, rfl⟩

/-! ### Schedules -/

namespace System
variable {σ : Type} [Repository σ]

theorem run_append (s : System σ) (schedule schedule' : List Actor) :
    s.run (schedule ++ schedule') = (s.run schedule).run schedule' := List.foldl_append ..

/-- What callers and workers keep, each on their own, is kept by every schedule. -/
theorem run_induction {I : Pipeline σ → Prop} (caller : ∀ c p, I p → I (Caller.step c p).2)
    (worker : ∀ i p q, I p → p.stepWorker? i = some q → I q) {s : System σ} (h : I s.pipeline)
    (schedule : List Actor) : I (s.run schedule).pipeline := by
  induction schedule generalizing s with
  | nil => exact h
  | cons actor schedule ih =>
    refine ih (s := s.move actor) ?_
    unfold move
    split
    · split
      · exact h
      · exact caller _ _ h
    · split
      · exact h
      · next hq => exact worker _ _ _ h hq

end System
end CallTrace
