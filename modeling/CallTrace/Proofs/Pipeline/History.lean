import CallTrace.Proofs.Pipeline.Forecast

/-! # What happens under a schedule

The history of a run (`System.history`) tells in their order which command came into which inbox, and
what each worker did: the operations of its assembler, the reports, and the closed traces whose
reductions it handed to the repository, with what came of that.

A step of a caller is one of seven things (`Caller.Step`), and a move is a step of a caller, a step
of a worker or nothing (`System.Step`).  So what these keep, together with what they add to the
history, is kept under every schedule (`System.history_induction`).

For each worker the history says where it stands (`Worker.Standing`).  It works off what was sent to
it in that order, its assembler is where a new one gets by the same operations, and what that
emitted has been handed over or waits to be.  A worker that has ended did everything up to the first
shutdown that was sent to it, and nothing more (`Worker.Standing.of_discard`).  This holds of all
workers under every schedule (`System.recorded_run`). -/

namespace CallTrace

/-- What a worker does in a step. -/
inductive Deed where
  /-- It hands the reduction of a closed trace to the repository, and that returns a result. -/
  | save (closed : Trace) (result : Except StoreFault Unit)
  | perform (o : Operation)
  | report (ticket : Nat)
deriving DecidableEq

inductive Event where
  | sent (worker : Nat) (c : Command)
  | did (worker : Nat) (d : Deed)
deriving DecidableEq

/-- The worker that an event is about. -/
def Event.worker : Event → Nat
  | sent i _ => i
  | did i _ => i

/-- Whether a save breaks down together with its worker. -/
def Event.isCrash : Event → Bool
  | did _ (.save _ (.error .crashed)) => true
  | _ => false

namespace Deed

def operation? : Deed → Option Operation
  | perform o => some o
  | _ => none

def closed? : Deed → Option Trace
  | save t _ => some t
  | _ => none

/-- Whether a deed is a part of a command.  Closed traces are saved between the parts. -/
def isWork : Deed → Bool
  | save _ _ => false
  | perform _ => true
  | report _ => true

/-- What saves have no share in shows in the other deeds. -/
theorem filterMap_filter_isWork {α : Type} {f : Deed → Option α}
    (hf : ∀ t result, f (.save t result) = none) (deeds : List Deed) :
    (deeds.filter isWork).filterMap f = deeds.filterMap f := by
  rw [List.filterMap_filter]
  refine List.filterMap_congr fun d _ => ?_
  cases d with
  | save t result => exact (hf t result).symm
  | perform o => rfl
  | report ticket => rfl

end Deed

/-- What a worker does about a command. -/
def Command.deeds : Command → List Deed
  | .ingest spans => spans.map fun s => .perform (.push s)
  | .advance t => [.perform (.advance t)]
  | .report ticket => [.report ticket]
  | .shutdown => [.perform .discard]

theorem Command.discard_mem_deeds {c : Command} :
    .perform .discard ∈ c.deeds ↔ c = .shutdown := by
  cases c <;> simp [deeds]

/-- The first shutdown is the first command that is about discarding. -/
theorem Command.takeWhile_deeds (sent : List Command) :
    (sent.flatMap deeds).takeWhile (· ≠ .perform .discard)
      = (sent.takeWhile (· ≠ .shutdown)).flatMap deeds := by
  induction sent with
  | nil => rfl
  | cons c sent ih =>
    by_cases hc : c = .shutdown
    · simp [hc, deeds]
    · have hdeeds : ∀ d ∈ c.deeds, decide (d ≠ .perform .discard) = true := by
        intro d hd
        have : d ≠ .perform .discard := fun e => hc (discard_mem_deeds.mp (e ▸ hd))
        simpa using this
      rw [List.flatMap_cons, List.takeWhile_append_of_pos hdeeds, ih,
        List.takeWhile_cons_of_pos (by simpa using hc), List.flatMap_cons]

/-! ### Histories -/

section
variable {σ : Type}

/-- What the next step of a worker does; to leave an empty batch behind is no deed. -/
def Worker.deeds [Repository σ] (depthLimit : Nat) (store : σ) (w : Worker) : List Deed :=
  if w.running then
    match w.closed, w.inbox with
    | t :: _, _ => [.save t (Repository.save (reduced depthLimit t) store).1]
    | [], c :: _ => c.deeds.take 1
    | [], [] => []
  else []

section
variable [Repository σ] {depthLimit : Nat} {store : σ} {w : Worker} (hrunning : w.running = true)
include hrunning

theorem Worker.deeds_of_closed {t : Trace} {closed : List Trace} (h : w.closed = t :: closed) :
    w.deeds depthLimit store = [.save t (Repository.save (reduced depthLimit t) store).1] := by
  simp [deeds, hrunning, h]

theorem Worker.deeds_of_inbox {c : Command} {inbox : List Command} (hclosed : w.closed = [])
    (h : w.inbox = c :: inbox) : w.deeds depthLimit store = c.deeds.take 1 := by
  simp [deeds, hrunning, hclosed, h]

end

def Caller.events (c : Caller) (p : Pipeline σ) : List Event :=
  match c.task with
  | some (.sending _ _ ⟨(i, command) :: _, _⟩) =>
    if (p.send? i command).isSome then [.sent i command] else []
  | _ => []

namespace System
variable [Repository σ]

/-- What happens in a move. -/
def events (s : System σ) : Actor → List Event
  | .caller i =>
    match s.callers[i]? with
    | none => []
    | some c => c.events s.pipeline
  | .worker i =>
    match s.pipeline.workers[i]? with
    | none => []
    | some w => (w.deeds s.pipeline.depthLimit s.pipeline.shared.store).map (.did i)

def history (s : System σ) : List Actor → List Event
  | [] => []
  | actor :: schedule => s.events actor ++ (s.move actor).history schedule

end System
end

/-! ### What a history tells of one worker -/

/-- The commands that came into the inbox of worker `i`. -/
def sentTo (i : Nat) (h : List Event) : List Command :=
  h.filterMap fun
    | .sent j c => if j = i then some c else none
    | .did _ _ => none

def deedsOf (i : Nat) (h : List Event) : List Deed :=
  h.filterMap fun
    | .sent _ _ => none
    | .did j d => if j = i then some d else none

section
variable {i j : Nat} {h h' : List Event} {c : Command} {d : Deed}

@[simp] theorem sentTo_append : sentTo i (h ++ h') = sentTo i h ++ sentTo i h' :=
  List.filterMap_append

@[simp] theorem deedsOf_append : deedsOf i (h ++ h') = deedsOf i h ++ deedsOf i h' :=
  List.filterMap_append

@[simp] theorem mem_sentTo : c ∈ sentTo i h ↔ .sent i c ∈ h := by
  rw [sentTo, List.mem_filterMap]
  constructor
  · rintro ⟨e | e, he, heq⟩
    · simp only [Option.ite_none_right_eq_some, Option.some.injEq] at heq
      obtain ⟨rfl, rfl⟩ := heq
      exact he
    · cases heq
  · exact fun he => ⟨_, he, if_pos rfl⟩

@[simp] theorem mem_deedsOf : d ∈ deedsOf i h ↔ .did i d ∈ h := by
  rw [deedsOf, List.mem_filterMap]
  constructor
  · rintro ⟨e | e, he, heq⟩
    · cases heq
    · simp only [Option.ite_none_right_eq_some, Option.some.injEq] at heq
      obtain ⟨rfl, rfl⟩ := heq
      exact he
  · exact fun he => ⟨_, he, if_pos rfl⟩

@[simp] theorem sentTo_sent : sentTo i [.sent j c] = if j = i then [c] else [] := by
  by_cases hj : j = i <;> simp [sentTo, hj]

@[simp] theorem deedsOf_sent : deedsOf i [.sent j c] = [] := rfl

@[simp] theorem sentTo_did (ds : List Deed) : sentTo i (ds.map (.did j)) = [] := by
  simp [sentTo]

@[simp] theorem deedsOf_did (ds : List Deed) :
    deedsOf i (ds.map (.did j)) = if j = i then ds else [] := by
  by_cases hj : j = i
  · simp [deedsOf, hj, List.filterMap_map]
  · simp [deedsOf, hj]

end

/-! ### Steps of a caller -/

namespace Pipeline
variable {σ : Type}

/-- Gives up the ticket of a request, if it has one. -/
def release (ticket : Option Nat) (p : Pipeline σ) : Pipeline σ :=
  match ticket with
  | none => p
  | some ticket => p.withdraw ticket

/-- `q` differs from `p` at most in what is announced, received, awaited or said. -/
structure Aside (p q : Pipeline σ) : Prop where
  workers : q.workers = p.workers
  depthLimit : q.depthLimit = p.depthLimit
  discard : q.discard = p.discard
  store : q.shared.store = p.shared.store
  discarded : q.shared.counters.get .discardedWindows = p.shared.counters.get .discardedWindows

theorem Aside.refl (p : Pipeline σ) : Aside p p := ⟨rfl, rfl, rfl, rfl, rfl⟩

theorem aside_begin (p : Pipeline σ) (request : Request) : Aside p (p.begin request).1 := by
  cases request <;> exact ⟨rfl, rfl, rfl, rfl, rfl⟩

theorem aside_release (ticket : Option Nat) (p : Pipeline σ) : Aside p (p.release ticket) := by
  cases ticket <;> exact ⟨rfl, rfl, rfl, rfl, rfl⟩

end Pipeline

namespace Caller
variable {σ : Type}

/-- The caller when its call has come to its end. -/
def finished (c : Caller) (request : Request) (ticket : Option Nat) : Caller :=
  match ticket with
  | none => c.answered request (.ok [])
  | some ticket => { c with task := some (.waiting ticket) }

/-- The steps of a caller. -/
inductive Step : Caller → Pipeline σ → List Event → Caller → Pipeline σ → Prop
  /-- Nothing is left to ask for, or reports are still to come. -/
  | pause {c p} : Step c p [] c p
  | begin {c p request script} (htask : c.task = none) (hscript : c.script = request :: script) :
      Step c p []
        { c with
          script := script
          task := some (.sending request (p.ticket? request) (p.begin request).2) }
        (p.begin request).1
  | send {c p request ticket i command sends announcement w ready}
      (htask : c.task = some (.sending request ticket ⟨(i, command) :: sends, announcement⟩))
      (hw : p.workers[i]? = some w) (hrunning : w.running = true) :
      Step c p [.sent i command]
        { c with task := some (.sending request ticket ⟨sends, announcement⟩) }
        { p with
          workers := p.workers.setIfInBounds i { w with inbox := w.inbox ++ [command] }
          ready := ready }
  | refuse {c p request ticket i command sends announcement}
      (htask : c.task = some (.sending request ticket ⟨(i, command) :: sends, announcement⟩))
      (hended : ∀ w, p.workers[i]? = some w → w.running = false) :
      Step c p [] (c.answered request (.error .channelClosed)) (p.release ticket)
  | announce {c p request ticket time}
      (htask : c.task = some (.sending request ticket ⟨[], some time⟩)) (hlt : p.watermark < time) :
      Step c p []
        { c with task := some (.sending request ticket ⟨p.broadcast (.advance time), none⟩) }
        ((p.raise time).say ⟨.trace, "Stream watermark advanced to " ++ toString time.toInt⟩)
  | finish {c p request ticket announcement}
      (htask : c.task = some (.sending request ticket ⟨[], announcement⟩))
      (hpassed : ∀ time ∈ announcement, time ≤ p.watermark) :
      Step c p [] (c.finished request ticket) p
  | collect {c p ticket} (htask : c.task = some (.waiting ticket))
      (hready : p.isWaiting ticket = false) :
      Step c p [] (c.answered .sync (p.collectReports ticket).1) (p.withdraw ticket)

/-- A caller puts one command into an inbox or leaves the workers alone. -/
theorem Step.aside_or_sent {c c' : Caller} {p q : Pipeline σ} {es : List Event}
    (h : Step c p es c' q) : es = [] ∧ p.Aside q ∨
      ∃ i command w ready, es = [.sent i command] ∧ p.workers[i]? = some w ∧ w.running = true ∧
        q = { p with
          workers := p.workers.setIfInBounds i { w with inbox := w.inbox ++ [command] }
          ready := ready } := by
  cases h with
  | send _ hw hrunning => exact .inr ⟨_, _, _, _, rfl, hw, hrunning, rfl⟩
  | pause => exact .inl ⟨rfl, .refl p⟩
  | begin => exact .inl ⟨rfl, p.aside_begin _⟩
  | refuse => exact .inl ⟨rfl, p.aside_release _⟩
  | announce => exact .inl ⟨rfl, rfl, rfl, rfl, rfl, rfl⟩
  | finish => exact .inl ⟨rfl, .refl p⟩
  | collect => exact .inl ⟨rfl, rfl, rfl, rfl, rfl, rfl⟩

theorem step_spec (c : Caller) (p : Pipeline σ) :
    Step c p (c.events p) (c.step p).1 (c.step p).2 := by
  cases htask : c.task with
  | none =>
    cases hscript : c.script with
    | nil =>
      simp only [Caller.step, events, htask, hscript]
      exact .pause
    | cons request script =>
      simp only [Caller.step, events, htask, hscript]
      exact .begin htask hscript
  | some task =>
    cases task with
    | waiting ticket =>
      simp only [Caller.step, events, htask]
      split
      · exact .pause
      · next hready => exact .collect htask (Bool.eq_false_iff.mpr hready)
    | sending request ticket call =>
      obtain ⟨_ | ⟨⟨i, command⟩, sends⟩, announcement⟩ := call
      · have hfinish : ∀ (announcement : Option Timestamp),
            c.task = some (.sending request ticket ⟨[], announcement⟩) →
            (∀ time ∈ announcement, time ≤ p.watermark) →
            p.stepCall ⟨[], announcement⟩ = (.ok none, p) →
            Step c p (c.events p) (c.step p).1 (c.step p).2 := by
          intro announcement htask hpassed hcall
          have := Step.finish htask hpassed
          cases ticket <;> simp only [Caller.step, events, htask, hcall] <;> exact this
        cases announcement with
        | none => exact hfinish none htask (by simp) rfl
        | some time =>
          by_cases hlt : p.watermark < time
          · have hcall : p.stepCall ⟨[], some time⟩ = (.ok (some _), _) := if_pos hlt
            simp only [Caller.step, events, htask, hcall]
            exact .announce htask hlt
          · exact hfinish (some time) htask (by simpa using Int64.not_lt.mp hlt) (if_neg hlt)
      · cases hsend : p.send? i command with
        | none =>
          have hended : ∀ w, p.workers[i]? = some w → w.running = false := by
            intro w hw
            refine Bool.eq_false_iff.mpr fun hrunning => ?_
            obtain ⟨ready, hready⟩ := Pipeline.send?_of_running hw hrunning command
            simp [hsend] at hready
          have := Step.refuse htask hended
          cases ticket <;>
            simpa [Caller.step, events, htask, Pipeline.stepCall, hsend, Pipeline.release] using this
        | some q =>
          cases hw : p.workers[i]? with
          | none => simp [Pipeline.send?, hw] at hsend
          | some w =>
            by_cases hrunning : w.running = true
            · obtain ⟨ready, hq⟩ := Pipeline.send?_of_running hw hrunning command
              obtain rfl := Option.some.inj (hsend.symm.trans hq)
              simp only [Caller.step, events, htask, Pipeline.stepCall, hsend]
              exact .send htask hw hrunning
            · simp [Pipeline.send?, hw, hrunning] at hsend

end Caller

/-! ### Moves -/

/-- `q` is `p` after worker `i` has become `w`, with what the workers share. -/
structure Pipeline.Put {σ : Type} (i : Nat) (w : Worker) (shared : Shared σ) (p q : Pipeline σ) :
    Prop where
  workers : q.workers = p.workers.setIfInBounds i w
  store : q.shared.store = shared.store
  counters : q.shared.counters = shared.counters
  depthLimit : q.depthLimit = p.depthLimit
  discard : q.discard = p.discard
  watermark : q.watermark = p.watermark

theorem Pipeline.stepWorker?_of_size_le {σ : Type} [Repository σ] {p : Pipeline σ} {i : Nat}
    (h : p.workers.size ≤ i) : p.stepWorker? i = none := by
  simp [stepWorker?, Array.getElem?_eq_none h]

/-- A worker that cannot go on has ended or has nothing to do. -/
theorem Pipeline.ended_or_idle {σ : Type} [Repository σ] {p : Pipeline σ} {i : Nat} {w : Worker}
    (hw : p.workers[i]? = some w) (h : p.stepWorker? i = none) :
    w.running = false ∨ w.idle = true := by
  have hstep : w.step? p.depthLimit p.shared = none := by
    refine Option.eq_none_iff_forall_ne_some.mpr fun r hr => ?_
    simp [stepWorker?, hw, hr] at h
  exact Worker.step?_eq_none_iff.mp hstep

namespace System
variable {σ : Type} [Repository σ] {s s' : System σ} {es : List Event}

/-- The moves of a system, each with what happens in it. -/
inductive Step (s : System σ) : List Event → System σ → Prop
  | pass : Step s [] s
  | caller {i c c' q es} (hc : s.callers[i]? = some c) (hstep : c.Step s.pipeline es c' q) :
      Step s es ⟨q, s.callers.set i c'⟩
  | worker {i w w' shared q} (hw : s.pipeline.workers[i]? = some w) (hrunning : w.running = true)
      (hstep : Worker.Step s.pipeline.depthLimit w s.pipeline.shared w' shared)
      (hput : Pipeline.Put i w' shared s.pipeline q) :
      Step s ((w.deeds s.pipeline.depthLimit s.pipeline.shared.store).map (.did i))
        { s with pipeline := q }

theorem step_move (s : System σ) (actor : Actor) : s.Step (s.events actor) (s.move actor) := by
  cases actor with
  | caller i =>
    cases hc : s.callers[i]? with
    | none =>
      simp only [events, move, hc]
      exact .pass
    | some c =>
      simp only [events, move, hc]
      exact .caller hc (c.step_spec s.pipeline)
  | worker i =>
    cases hw : s.pipeline.workers[i]? with
    | none =>
      have hq : s.pipeline.stepWorker? i = none := by simp [Pipeline.stepWorker?, hw]
      simp only [events, move, hw, hq]
      exact .pass
    | some w =>
      cases hq : s.pipeline.stepWorker? i with
      | some q =>
        obtain ⟨v, w', shared, hv, hrunning, hstep, hworkers, hstore, hcounters, hdepth, -, hdiscard,
          hwatermark⟩ := Pipeline.stepWorker?_eq_some hq
        obtain rfl := Option.some.inj (hw.symm.trans hv)
        simp only [events, move, hw, hq]
        exact .worker hw hrunning hstep ⟨hworkers, hstore, hcounters, hdepth, hdiscard, hwatermark⟩
      | none =>
        have hnone : w.deeds s.pipeline.depthLimit s.pipeline.shared.store = [] := by
          unfold Worker.deeds
          rcases Pipeline.ended_or_idle hw hq with hended | hidle
          · simp [hended]
          · simp only [Worker.idle, Bool.and_eq_true, List.isEmpty_iff] at hidle
            simp [hidle]
        simp only [events, move, hw, hq, hnone]
        exact .pass

/-- What holds at the start, with nothing in the history, and is kept by every step together with
what that adds to the history, holds after every schedule. -/
theorem history_induction {I : List Event → System σ → Prop}
    (step : ∀ h s es s', I h s → s.Step es s' → I (h ++ es) s') {s : System σ} (hI : I [] s)
    (schedule : List Actor) : I (s.history schedule) (s.run schedule) := by
  suffices ∀ h s, I h s → I (h ++ s.history schedule) (s.run schedule) from this [] s hI
  induction schedule with
  | nil => exact fun h s hI => (List.append_nil h).symm ▸ hI
  | cons actor schedule ih =>
    intro h s hI
    rw [history, ← List.append_assoc]
    exact ih _ _ (step h s _ _ hI (s.step_move actor))

/-- What no step changes. -/
theorem Step.same (hstep : s.Step es s') :
    s'.pipeline.workers.size = s.pipeline.workers.size ∧
      s'.pipeline.depthLimit = s.pipeline.depthLimit ∧
      s'.pipeline.discard = s.pipeline.discard := by
  cases hstep with
  | pass => exact ⟨rfl, rfl, rfl⟩
  | worker _ _ _ hput =>
    exact ⟨by rw [hput.workers, Array.size_setIfInBounds], hput.depthLimit, hput.discard⟩
  | caller _ hstep =>
    rcases hstep.aside_or_sent with ⟨-, haside⟩ | ⟨i, command, w, ready, -, -, -, rfl⟩
    · exact ⟨congrArg Array.size haside.workers, haside.depthLimit, haside.discard⟩
    · exact ⟨Array.size_setIfInBounds, rfl, rfl⟩

theorem same_run (s : System σ) (schedule : List Actor) :
    (s.run schedule).pipeline.workers.size = s.pipeline.workers.size ∧
      (s.run schedule).pipeline.depthLimit = s.pipeline.depthLimit ∧
      (s.run schedule).pipeline.discard = s.pipeline.discard := by
  refine history_induction (I := fun _ s' => s'.pipeline.workers.size = s.pipeline.workers.size ∧
    s'.pipeline.depthLimit = s.pipeline.depthLimit ∧ s'.pipeline.discard = s.pipeline.discard)
    ?_ ⟨rfl, rfl, rfl⟩ schedule
  rintro h s' es s'' ⟨hsize, hdepth, hdiscard⟩ hstep
  obtain ⟨hsize', hdepth', hdiscard'⟩ := hstep.same
  exact ⟨hsize'.trans hsize, hdepth'.trans hdepth, hdiscard'.trans hdiscard⟩

end System

/-! ### Where a worker stands -/

/-- Where a new assembler gets by the operations among some deeds, and what it emits. -/
def WindowConfig.after (c : WindowConfig) (deeds : List Deed) : Assembler × Emission :=
  ({ config := c } : Assembler).run (deeds.filterMap Deed.operation?)

section
variable {c : WindowConfig} (hc : c.Valid) (deeds : List Deed)
include hc

theorem WindowConfig.Valid.sound_after : (c.after deeds).1.Sound :=
  (Assembler.sound_new hc).run (Assembler.settled_new c) _

theorem WindowConfig.Valid.settled_after : (c.after deeds).1.Settled :=
  (Assembler.settled_new c).run (Assembler.sound_new hc) _

theorem WindowConfig.Valid.config_after : (c.after deeds).1.config = c :=
  Assembler.run_config (Assembler.sound_new hc) (Assembler.settled_new c) _

end

theorem WindowConfig.after_perform (c : WindowConfig) (deeds : List Deed) (o : Operation) :
    c.after (deeds ++ [.perform o]) = (((c.after deeds).1.perform o).1,
      (c.after deeds).2 ++ ((c.after deeds).1.perform o).2) := by
  simp [after, Deed.operation?, Assembler.run_append, Assembler.run_singleton]

/-- No assembler takes notice of other deeds. -/
theorem WindowConfig.after_append (c : WindowConfig) (deeds : List Deed) {d : Deed}
    (hd : d.operation? = none) : c.after (deeds ++ [d]) = c.after deeds := by
  simp [after, hd]

namespace Worker
variable {σ : Type} [Repository σ] {c : WindowConfig} {depthLimit : Nat} {w w' : Worker}
  {s s' : Shared σ} {sent : List Command} {deeds : List Deed}

/-- Where a worker stands to which some commands were sent, and which did some deeds. -/
inductive Standing (c : WindowConfig) (sent : List Command) (deeds : List Deed) (w : Worker) : Prop
  | running (hrunning : w.running = true) (hopen : .perform .discard ∉ deeds)
      (hwork : deeds.filter Deed.isWork ++ w.inbox.flatMap Command.deeds
        = sent.flatMap Command.deeds)
      (hassembler : w.assembler = (c.after deeds).1)
      (hclosed : deeds.filterMap Deed.closed? ++ w.closed = (c.after deeds).2.traces)
  /-- It has taken a shutdown. -/
  | ended {before rest} (hrunning : w.running = false) (hdeeds : deeds = before ++ [.perform .discard])
      (hopen : .perform .discard ∉ before)
      (hwork : before.filter Deed.isWork ++ .perform .discard :: rest = sent.flatMap Command.deeds)
      (hclosed : before.filterMap Deed.closed? = (c.after before).2.traces)
  /-- A save has broken down under it. -/
  | broken {t rest traces} (hrunning : w.running = false) (hopen : .perform .discard ∉ deeds)
      (hcrash : .save t (.error .crashed) ∈ deeds)
      (hwork : deeds.filter Deed.isWork ++ rest = sent.flatMap Command.deeds)
      (hclosed : deeds.filterMap Deed.closed? ++ traces = (c.after deeds).2.traces)

theorem standing_new (c : WindowConfig) (i : Nat) :
    Standing c [] [] { partition := i, assembler := { config := c } } :=
  .running rfl (by simp) rfl rfl rfl

namespace Standing

theorem of_running (h : Standing c sent deeds w) (hrunning : w.running = true) :
    .perform .discard ∉ deeds ∧
      deeds.filter Deed.isWork ++ w.inbox.flatMap Command.deeds = sent.flatMap Command.deeds ∧
      w.assembler = (c.after deeds).1 ∧
      deeds.filterMap Deed.closed? ++ w.closed = (c.after deeds).2.traces := by
  cases h with
  | running _ hopen hwork hassembler hclosed => exact ⟨hopen, hwork, hassembler, hclosed⟩
  | ended hended => exact absurd hrunning (by simp [hended])
  | broken hended => exact absurd hrunning (by simp [hended])

/-- A command comes into the inbox. -/
theorem send (h : Standing c sent deeds w) (hrunning : w.running = true) (command : Command) :
    Standing c (sent ++ [command]) deeds { w with inbox := w.inbox ++ [command] } := by
  obtain ⟨hopen, hwork, hassembler, hclosed⟩ := h.of_running hrunning
  refine .running hrunning hopen ?_ hassembler hclosed
  rw [List.flatMap_append, List.flatMap_append, ← List.append_assoc, hwork]

/-! The steps of the worker, one by one. -/

theorem perform {o : Operation} (inbox : List Command) (h : Standing c sent deeds w)
    (hrunning : w.running = true) (hclosed : w.closed = []) (ho : o ≠ .discard)
    (hinbox : w.inbox.flatMap Command.deeds = .perform o :: inbox.flatMap Command.deeds) :
    Standing c sent (deeds ++ [.perform o]) { w with
      assembler := (w.assembler.perform o).1
      inbox := inbox
      closed := (w.assembler.perform o).2.traces } := by
  obtain ⟨hopen, hwork, hassembler, hsaved⟩ := h.of_running hrunning
  rw [hclosed, List.append_nil] at hsaved
  refine .running hrunning ?_ ?_ ?_ ?_
  · simpa using ⟨hopen, Ne.symm ho⟩
  · rw [← hwork, hinbox]
    simp [List.filter_cons, Deed.isWork]
  · rw [WindowConfig.after_perform, hassembler]
  · rw [WindowConfig.after_perform, Emission.traces_append, ← hsaved, hassembler]
    simp [Deed.closed?]

theorem save {t : Trace} {closed : List Trace} (h : Standing c sent deeds w)
    (hrunning : w.running = true) (hclosed : w.closed = t :: closed)
    (result : Except StoreFault Unit) :
    Standing c sent (deeds ++ [.save t result])
      (match result with
        | .error .crashed => { w with closed := closed }.halted
        | _ => { w with closed := closed }) := by
  obtain ⟨hopen, hwork, hassembler, hsaved⟩ := h.of_running hrunning
  have hafter := c.after_append deeds (d := .save t result) rfl
  have hopen' : .perform .discard ∉ deeds ++ [.save t result] := by simpa using hopen
  have hwork' : (deeds ++ [Deed.save t result]).filter Deed.isWork
      ++ w.inbox.flatMap Command.deeds = sent.flatMap Command.deeds := by
    simpa [List.filter_cons, Deed.isWork] using hwork
  have hsaved' : (deeds ++ [Deed.save t result]).filterMap Deed.closed? ++ closed
      = (c.after (deeds ++ [.save t result])).2.traces := by
    rw [hafter, ← hsaved, hclosed]
    simp [Deed.closed?]
  split
  · exact .broken (t := t) rfl hopen' (by simp) hwork' hsaved'
  · exact .running hrunning hopen' hwork' (hassembler.trans (by rw [hafter])) hsaved'

theorem leave {inbox : List Command} (h : Standing c sent deeds w) (hrunning : w.running = true)
    (hinbox : w.inbox = .ingest [] :: inbox) :
    Standing c sent deeds { w with inbox := inbox } := by
  obtain ⟨hopen, hwork, hassembler, hclosed⟩ := h.of_running hrunning
  refine .running hrunning hopen ?_ hassembler hclosed
  rw [← hwork, hinbox]
  simp [Command.deeds]

theorem report {ticket : Nat} {inbox : List Command} (h : Standing c sent deeds w)
    (hrunning : w.running = true) (hinbox : w.inbox = .report ticket :: inbox) :
    Standing c sent (deeds ++ [.report ticket]) { w with inbox := inbox } := by
  obtain ⟨hopen, hwork, hassembler, hclosed⟩ := h.of_running hrunning
  have hafter := c.after_append deeds (d := .report ticket) rfl
  refine .running hrunning (by simpa using hopen) ?_ (hassembler.trans (by rw [hafter])) ?_
  · rw [← hwork, hinbox]
    simp [Command.deeds, List.filter_cons, Deed.isWork]
  · rw [hafter, ← hclosed]
    simp [Deed.closed?]

theorem shutdown {inbox : List Command} (h : Standing c sent deeds w) (hrunning : w.running = true)
    (hclosed : w.closed = []) (hinbox : w.inbox = .shutdown :: inbox) {a : Assembler} :
    Standing c sent (deeds ++ [.perform .discard]) ({ w with assembler := a }.halted) := by
  obtain ⟨hopen, hwork, -, hsaved⟩ := h.of_running hrunning
  rw [hclosed, List.append_nil] at hsaved
  have hrest : deeds.filter Deed.isWork ++ .perform .discard :: inbox.flatMap Command.deeds
      = sent.flatMap Command.deeds := by
    rw [← hwork, hinbox]
    simp [Command.deeds]
  exact .ended rfl rfl hopen hrest hsaved

theorem step (h : Standing c sent deeds w) (hrunning : w.running = true)
    (hstep : Step depthLimit w s w' s') :
    Standing c sent (deeds ++ w.deeds depthLimit s.store) w' := by
  cases hstep with
  | @save t closed hclosed =>
    rw [deeds_of_closed hrunning hclosed, worker_persist]
    exact h.save hrunning hclosed _
  | @batchEnd inbox hclosed hinbox =>
    rw [deeds_of_inbox hrunning hclosed hinbox]
    exact (List.append_nil deeds).symm ▸ h.leave hrunning hinbox
  | @push span spans inbox hclosed hinbox =>
    rw [deeds_of_inbox hrunning hclosed hinbox]
    exact h.perform (.ingest spans :: inbox) hrunning hclosed (by simp)
      (by simp [hinbox, Command.deeds])
  | @advance time inbox hclosed hinbox =>
    rw [deeds_of_inbox hrunning hclosed hinbox]
    exact h.perform inbox hrunning hclosed (by simp) (by simp [hinbox, Command.deeds])
  | @report ticket inbox hclosed hinbox =>
    rw [deeds_of_inbox hrunning hclosed hinbox]
    exact h.report hrunning hinbox
  | @shutdown inbox hclosed hinbox =>
    rw [deeds_of_inbox hrunning hclosed hinbox]
    exact h.shutdown hrunning hclosed hinbox

/-! What follows from where a worker stands. -/

/-- A worker works off what was sent to it, in that order. -/
theorem work_prefix (h : Standing c sent deeds w) :
    deeds.filter Deed.isWork <+: sent.flatMap Command.deeds := by
  cases h with
  | running _ _ hwork => exact hwork ▸ List.prefix_append ..
  | ended _ hdeeds _ hwork =>
    rw [hdeeds, ← hwork, List.filter_append]
    exact List.prefix_append_right_inj _ |>.mpr ⟨_, rfl⟩
  | broken _ _ _ hwork => exact hwork ▸ List.prefix_append ..

/-- A worker hands over what its assembler emits, in that order. -/
theorem closed_prefix (h : Standing c sent deeds w) :
    deeds.filterMap Deed.closed? <+: (c.after deeds).2.traces := by
  cases h with
  | running _ _ _ _ hclosed => exact hclosed ▸ List.prefix_append ..
  | ended _ hdeeds _ _ hclosed =>
    rw [hdeeds, WindowConfig.after_perform, Emission.traces_append, ← hclosed,
      List.filterMap_append]
    exact List.prefix_rfl
  | broken _ _ _ _ hclosed => exact hclosed ▸ List.prefix_append ..

/-- A worker that has taken a shutdown has done what was sent to it before, has handed over all that
came of it, and has done nothing after it. -/
theorem of_discard (h : Standing c sent deeds w) (hdiscard : .perform .discard ∈ deeds) :
    w.running = false ∧ .shutdown ∈ sent ∧ ∃ before, deeds = before ++ [.perform .discard] ∧
      .perform .discard ∉ before ∧
      before.filter Deed.isWork = (sent.takeWhile (· ≠ .shutdown)).flatMap Command.deeds ∧
      before.filterMap Deed.closed? = (c.after before).2.traces := by
  cases h with
  | running _ hopen => exact absurd hdiscard hopen
  | broken _ hopen => exact absurd hdiscard hopen
  | @ended before rest hrunning hdeeds hopen hwork hclosed =>
    refine ⟨hrunning, ?_, before, hdeeds, hopen, ?_, hclosed⟩
    · have hmem : .perform .discard ∈ sent.flatMap Command.deeds := hwork ▸ by simp
      obtain ⟨command, hcommand, hd⟩ := List.mem_flatMap.mp hmem
      exact Command.discard_mem_deeds.mp hd ▸ hcommand
    · rw [← Command.takeWhile_deeds, ← hwork, List.takeWhile_append_of_pos]
      · simp
      · intro d hd
        have : d ≠ .perform .discard := fun e => hopen (e ▸ List.mem_of_mem_filter hd)
        simpa using this

/-- A worker ends by a shutdown or by a save. -/
theorem discard_mem (h : Standing c sent deeds w) (hended : w.running = false)
    (hsaves : ∀ t, .save t (.error .crashed) ∉ deeds) : .perform .discard ∈ deeds := by
  cases h with
  | running hrunning => exact absurd hended (by simp [hrunning])
  | ended _ hdeeds => simp [hdeeds]
  | broken _ _ hcrash => exact absurd hcrash (hsaves _)

end Standing
end Worker

/-! ### Where all workers stand -/

namespace System
variable {σ : Type} {c : WindowConfig} {h es : List Event} {s s' : System σ}

/-- All that happened has to do with workers of the system, and shows where each of them stands. -/
structure Recorded (c : WindowConfig) (h : List Event) (s : System σ) : Prop where
  worker_lt : ∀ e ∈ h, e.worker < s.pipeline.workers.size
  standing : ∀ (i : Nat) w, s.pipeline.workers[i]? = some w →
    w.Standing c (sentTo i h) (deedsOf i h)

theorem recorded_start (settings : Settings) (store : σ) (scripts : List (List Request)) :
    Recorded settings.windows [] (start (Pipeline.initial settings store) scripts) where
  worker_lt := by simp
  standing i w hw := by
    obtain ⟨j, -, rfl⟩ := Array.getElem?_map .. ▸ hw |> Option.map_eq_some_iff.mp
    exact Worker.standing_new ..

theorem Recorded.standing_of_mem (hs : Recorded c h s) {e : Event} (he : e ∈ h) :
    ∃ w, s.pipeline.workers[e.worker]? = some w ∧
      w.Standing c (sentTo e.worker h) (deedsOf e.worker h) :=
  have hw := Array.getElem?_eq_getElem (hs.worker_lt e he)
  ⟨_, hw, hs.standing _ _ hw⟩

theorem Recorded.work_prefix (hs : Recorded c h s) (i : Nat) :
    (deedsOf i h).filter Deed.isWork <+: (sentTo i h).flatMap Command.deeds := by
  cases hd : deedsOf i h with
  | nil => exact List.nil_prefix
  | cons d deeds =>
    obtain ⟨w, -, hstanding⟩ := hs.standing_of_mem (mem_deedsOf.mp (hd ▸ List.mem_cons_self))
    exact hd ▸ hstanding.work_prefix

theorem Recorded.closed_prefix (hs : Recorded c h s) (i : Nat) :
    (deedsOf i h).filterMap Deed.closed? <+: (c.after (deedsOf i h)).2.traces := by
  cases hd : deedsOf i h with
  | nil => exact List.nil_prefix
  | cons d deeds =>
    obtain ⟨w, -, hstanding⟩ := hs.standing_of_mem (mem_deedsOf.mp (hd ▸ List.mem_cons_self))
    exact hd ▸ hstanding.closed_prefix

/-- A worker that has ended has taken a shutdown, unless a save broke down. -/
theorem Recorded.discard_mem (hs : Recorded c h s) (hcrashes : ∀ e ∈ h, e.isCrash = false) {i : Nat}
    {w : Worker} (hw : s.pipeline.workers[i]? = some w) (hended : w.running = false) :
    .did i (.perform .discard) ∈ h := by
  apply mem_deedsOf.mp
  refine (hs.standing i w hw).discard_mem hended fun t ht => ?_
  simpa [Event.isCrash] using hcrashes _ (mem_deedsOf.mp ht)

/-- Only the worker that something happens to may change. -/
theorem Recorded.set {j : Nat} {w w' : Worker} (hs : Recorded c h s)
    (hsize : s'.pipeline.workers = s.pipeline.workers.setIfInBounds j w')
    (hw : s.pipeline.workers[j]? = some w) (hes : ∀ e ∈ es, e.worker = j)
    (hstanding : w.Standing c (sentTo j h) (deedsOf j h) →
      w'.Standing c (sentTo j (h ++ es)) (deedsOf j (h ++ es))) :
    Recorded c (h ++ es) s' := by
  have hlt := (Array.getElem?_eq_some_iff.mp hw).1
  constructor
  · intro e he
    rw [hsize, Array.size_setIfInBounds]
    rcases List.mem_append.mp he with he | he
    · exact hs.worker_lt e he
    · exact hes e he ▸ hlt
  · intro i v hv
    rw [hsize, Array.getElem?_setIfInBounds, if_pos hlt] at hv
    split at hv
    · next hij =>
      subst hij
      obtain rfl := Option.some.inj hv
      exact hstanding (hs.standing j w hw)
    · next hij =>
      have hsent : sentTo i es = [] := by
        refine List.filterMap_eq_nil_iff.mpr fun e he => ?_
        have := hes e he
        cases e <;> simp_all [Event.worker]
      have hdeeds : deedsOf i es = [] := by
        refine List.filterMap_eq_nil_iff.mpr fun e he => ?_
        have := hes e he
        cases e <;> simp_all [Event.worker]
      rw [sentTo_append, deedsOf_append, hsent, hdeeds, List.append_nil, List.append_nil]
      exact hs.standing i v hv

variable [Repository σ]

theorem Recorded.step (hs : Recorded c h s) (hstep : s.Step es s') : Recorded c (h ++ es) s' := by
  cases hstep with
  | pass => exact (List.append_nil h).symm ▸ hs
  | @worker i w w' shared q hw hrunning hstep hput =>
    refine hs.set hput.workers hw ?_ fun hstanding => ?_
    · simp [Event.worker]
    · simpa using hstanding.step hrunning hstep
  | caller hc hstep =>
    rcases hstep.aside_or_sent with ⟨rfl, haside⟩ | ⟨i, command, w, ready, rfl, hw, hrunning, rfl⟩
    · rw [List.append_nil]
      exact ⟨haside.workers ▸ hs.worker_lt, haside.workers ▸ hs.standing⟩
    · refine hs.set rfl hw ?_ fun hstanding => ?_
      · simp [Event.worker]
      · simpa using hstanding.send hrunning command

theorem size_run_initial (settings : Settings) (store : σ) (scripts : List (List Request))
    (schedule : List Actor) : ((start (Pipeline.initial settings store) scripts).run
      schedule).pipeline.workers.size = settings.partitions := by
  rw [(same_run _ _).1]
  simp [start, Pipeline.initial]

/-- Under every schedule the history shows where the workers stand. -/
theorem Recorded.run (hs : Recorded c h s) (schedule : List Actor) :
    Recorded c (h ++ s.history schedule) (s.run schedule) :=
  history_induction (I := fun h' s' => Recorded c (h ++ h') s')
    (fun _ _ _ _ hs hstep => List.append_assoc .. ▸ hs.step hstep)
    ((List.append_nil h).symm ▸ hs) schedule

theorem recorded_run (settings : Settings) (store : σ) (scripts : List (List Request))
    (schedule : List Actor) :
    let s := start (Pipeline.initial settings store) scripts
    Recorded settings.windows (s.history schedule) (s.run schedule) :=
  (recorded_start settings store scripts).run schedule

end System
end CallTrace
