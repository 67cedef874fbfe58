import CallTrace.Proofs.Pipeline.Accounts
import CallTrace.Proofs.Pipeline.SingleSave

/-! # Saves that fail

Two pipelines with repositories of their own go the same way under one schedule, whichever saves fail
in one and in the other (`System.Alike`).  No caller ever looks at a repository, and a worker looks
only whether a save broke down; so the workers do the same, and the counters differ at most in how
many saves succeeded and how many failed (`System.Alike.run`).

A worker hands over every trace that its assembler emits (`System.Recorded.closed_eq`) and counts what
became of it.  So between commands as many traces have been reduced or left as they are as were
emitted, and as many saved or refused (`System.save_failures_isolated`). -/

namespace CallTrace

/-! ### Histories without answers -/

/-- A deed without what the repository said to it. -/
def Deed.unanswered : Deed → Deed
  | save t _ => save t (.ok ())
  | perform o => perform o
  | report ticket => report ticket

def Event.unanswered : Event → Event
  | sent i c => sent i c
  | did i d => did i d.unanswered

@[simp] theorem Deed.closed?_unanswered (d : Deed) : d.unanswered.closed? = d.closed? := by
  cases d <;> rfl

theorem deedsOf_unanswered (i : Nat) (h : List Event) :
    deedsOf i (h.map Event.unanswered) = (deedsOf i h).map Deed.unanswered := by
  rw [deedsOf, deedsOf, List.filterMap_map, List.map_filterMap]
  refine List.filterMap_congr fun e _ => ?_
  cases e with
  | sent j c => rfl
  | did j d => by_cases hj : j = i <;> simp [Event.unanswered, hj]

theorem results_unanswered (h : List Event) :
    results Deed.closed? (h.map Event.unanswered) = results Deed.closed? h := by
  rw [results, results, List.filterMap_map]
  refine List.filterMap_congr fun e _ => ?_
  cases e with
  | sent j c => rfl
  | did j d => exact d.closed?_unanswered

theorem filterMap_closed?_unanswered (deeds : List Deed) :
    (deeds.map Deed.unanswered).filterMap Deed.closed? = deeds.filterMap Deed.closed? := by
  rw [List.filterMap_map]
  exact List.filterMap_congr fun d _ => d.closed?_unanswered

/-! ### Alike pipelines -/

variable {σ τ : Type}

/-- Whether counters differ at most in how many saves succeeded and how many failed. -/
def Counters.Alike (c d : Counters) : Prop :=
  ∀ k, k ≠ .persistedTraces → k ≠ .failedPersists → d.get k = c.get k

theorem Counters.Alike.add {c d : Counters} (h : c.Alike d) (k : Counter) (n : UInt64) :
    (c.add k n).Alike (d.add k n) := by
  intro j hsaved hfailed
  rw [get_add, get_add]
  split
  · next hj =>
    subst hj
    rw [h _ hsaved hfailed]
  · exact h j hsaved hfailed

theorem Counters.Alike.record {c d : Counters} (h : c.Alike d) (notices : List Notice) :
    (c.record notices).Alike (d.record notices) := by
  intro k hsaved hfailed
  rw [get_record, get_record, h k hsaved hfailed]

/-- What workers share, but for the repository, the log and the counters of saves. -/
structure Shared.Alike (s : Shared σ) (t : Shared τ) : Prop where
  counters : s.counters.Alike t.counters
  awaited : t.awaited = s.awaited
  answers : t.answers = s.answers

namespace Shared.Alike
variable {s : Shared σ} {t : Shared τ}

theorem note (h : s.Alike t) (notices : List Notice) : (s.note notices).Alike (t.note notices) :=
  ⟨h.counters.record notices, h.awaited, h.answers⟩

theorem say (h : s.Alike t) (line line' : LogLine) : (s.say line).Alike (t.say line') :=
  ⟨h.counters, h.awaited, h.answers⟩

theorem answer (h : s.Alike t) (ticket : Nat) (status : PartitionStatus) :
    (s.answer ticket status).Alike (t.answer ticket status) := by
  unfold Shared.answer
  rw [h.awaited]
  split
  · exact ⟨h.counters, rfl, congrArg (· ++ [(ticket, status)]) h.answers⟩
  · exact h.say _ _

end Shared.Alike

/-- Whether two pipelines stand at the same point, with repositories of their own. -/
structure Pipeline.Alike (p : Pipeline σ) (q : Pipeline τ) : Prop where
  depthLimit : q.depthLimit = p.depthLimit
  digest : q.digest = p.digest
  discard : q.discard = p.discard
  workers : q.workers = p.workers
  shared : p.shared.Alike q.shared
  watermark : q.watermark = p.watermark
  nextTicket : q.nextTicket = p.nextTicket
  ready : q.ready = p.ready

structure System.Alike (s : System σ) (t : System τ) : Prop where
  pipeline : s.pipeline.Alike t.pipeline
  callers : t.callers = s.callers

/-! ### Callers of alike pipelines -/

namespace Pipeline.Alike
variable {p p' : Pipeline σ} {q q' : Pipeline τ}

theorem begin (h : p.Alike q) (request : Request) :
    (p.begin request).1.Alike (q.begin request).1 ∧ (q.begin request).2 = (p.begin request).2 := by
  obtain ⟨hdepth, hdigest, hdiscard, hworkers, hshared, hwatermark, hticket, hready⟩ := h
  cases request with
  | ingest spans =>
    refine ⟨⟨hdepth, hdigest, hdiscard, hworkers, ⟨hshared.counters.add _ _, hshared.awaited,
      hshared.answers⟩, hwatermark, hticket, hready⟩, ?_⟩
    simp only [Pipeline.begin, routing, hdiscard, hdigest, hworkers]
  | advance time =>
    refine ⟨⟨hdepth, hdigest, hdiscard, hworkers, hshared, ?_, hticket, hready⟩, ?_⟩
    · exact congrArg (max · time) hwatermark
    · simp only [Pipeline.begin, broadcast, hworkers]
  | sync =>
    refine ⟨⟨hdepth, hdigest, hdiscard, hworkers, ⟨hshared.counters, ?_, hshared.answers⟩,
      hwatermark, congrArg (· + 1) hticket, hready⟩, ?_⟩
    · simp only [Pipeline.begin, hticket, hshared.awaited]
    · simp only [Pipeline.begin, broadcast, hworkers, hticket]
  | shutdown =>
    refine ⟨⟨hdepth, hdigest, hdiscard, hworkers, hshared, hwatermark, hticket, hready⟩, ?_⟩
    simp only [Pipeline.begin, broadcast, hworkers]

theorem ticket? (h : p.Alike q) (request : Request) : q.ticket? request = p.ticket? request := by
  cases request <;> simp [Pipeline.ticket?, h.nextTicket]

theorem withdraw (h : p.Alike q) (ticket : Nat) : (p.withdraw ticket).Alike (q.withdraw ticket) := by
  obtain ⟨hdepth, hdigest, hdiscard, hworkers, hshared, hwatermark, hticket, hready⟩ := h
  refine ⟨hdepth, hdigest, hdiscard, hworkers, ⟨hshared.counters, ?_, ?_⟩, hwatermark, hticket,
    hready⟩
  · simp only [Pipeline.withdraw, hshared.awaited]
  · simp only [Pipeline.withdraw, hshared.answers]

theorem say (h : p.Alike q) (line line' : LogLine) : (p.say line).Alike (q.say line') :=
  ⟨h.depthLimit, h.digest, h.discard, h.workers, h.shared.say _ _, h.watermark, h.nextTicket,
    h.ready⟩

theorem report? (h : p.Alike q) (ticket i : Nat) : q.report? ticket i = p.report? ticket i := by
  simp only [Pipeline.report?, h.shared.answers]

theorem isWaiting (h : p.Alike q) (ticket : Nat) : q.isWaiting ticket = p.isWaiting ticket := by
  simp only [Pipeline.isWaiting, h.report?, h.workers]

/-- A send is taken by both or by neither. -/
theorem send? (h : p.Alike q) (i : Nat) (command : Command) :
    p.send? i command = none ∧ q.send? i command = none ∨
      ∃ p' q', p.send? i command = some p' ∧ q.send? i command = some q' ∧ p'.Alike q' := by
  obtain ⟨hdepth, hdigest, hdiscard, hworkers, hshared, hwatermark, hticket, hready⟩ := h
  simp only [Pipeline.send?, hworkers, hready]
  cases p.workers[i]? with
  | none => exact .inl ⟨rfl, rfl⟩
  | some w =>
    by_cases hrunning : w.running = true
    · simp only [hrunning, if_true]
      exact .inr ⟨_, _, rfl, rfl, ⟨hdepth, hdigest, hdiscard, rfl, hshared, hwatermark, hticket, rfl⟩⟩
    · exact .inl (by simp [hrunning])

theorem stepCall (h : p.Alike q) (call : Call) :
    (q.stepCall call).1 = (p.stepCall call).1 ∧ (p.stepCall call).2.Alike (q.stepCall call).2 := by
  obtain ⟨_ | ⟨⟨i, command⟩, sends⟩, _ | time⟩ := call
  · exact ⟨rfl, h⟩
  · simp only [Pipeline.stepCall, h.watermark]
    split
    · refine ⟨by simp only [broadcast, h.workers], say ?_ _ _⟩
      exact { h with watermark := congrArg (max · time) h.watermark }
    · exact ⟨rfl, h⟩
  all_goals
    simp only [Pipeline.stepCall]
    rcases h.send? i command with ⟨hp, hq⟩ | ⟨p', q', hp, hq, halike⟩
    · rw [hp, hq]
      exact ⟨rfl, h⟩
    · rw [hp, hq]
      exact ⟨rfl, halike⟩

theorem put {s : Shared σ} {t : Shared τ}
    (h : p.Alike q) (i : Nat) (before after : Worker) (hshared : s.Alike t) :
    (p.put i before after s).Alike (q.put i before after t) := by
  have hput : Pipeline.Alike
      { p with
        workers := p.workers.setIfInBounds i after
        shared := s
        ready := if after.idle then p.ready.filter (· ≠ i) else p.ready }
      { q with
        workers := p.workers.setIfInBounds i after
        shared := t
        ready := if after.idle then p.ready.filter (· ≠ i) else p.ready } :=
    ⟨h.depthLimit, h.digest, h.discard, rfl, hshared, h.watermark, h.nextTicket, rfl⟩
  simp only [Pipeline.put, h.workers, h.ready]
  split
  · exact hput.say _ _
  · exact hput

end Pipeline.Alike

theorem System.alike_start (settings : Settings) (store : σ) (store' : τ)
    (scripts : List (List Request)) :
    (start (Pipeline.initial settings store) scripts).Alike
      (start (Pipeline.initial settings store') scripts) :=
  ⟨⟨rfl, rfl, rfl, rfl, ⟨fun _ _ _ => rfl, rfl, rfl⟩, rfl, rfl, rfl⟩, rfl⟩

/-- A caller does the same to both. -/
theorem Caller.step_alike {p : Pipeline σ} {q : Pipeline τ} (h : p.Alike q) (c : Caller) :
    (c.step q).1 = (c.step p).1 ∧ (c.step p).2.Alike (c.step q).2 ∧ c.events q = c.events p := by
  cases htask : c.task with
  | none =>
    cases hscript : c.script with
    | nil =>
      simp only [step, events, htask, hscript]
      exact ⟨trivial, h, trivial⟩
    | cons request script =>
      obtain ⟨halike, hcall⟩ := h.begin request
      simp only [step, events, htask, hscript, hcall, h.ticket?]
      exact ⟨trivial, halike, trivial⟩
  | some task =>
    cases task with
    | waiting ticket =>
      simp only [step, events, htask, h.isWaiting]
      split
      · exact ⟨rfl, h, trivial⟩
      · refine ⟨?_, h.withdraw ticket, trivial⟩
        simp only [Pipeline.collectReports, h.report?, h.workers]
    | sending request ticket call =>
      have hevents : c.events q = c.events p := by
        obtain ⟨_ | ⟨⟨i, command⟩, sends⟩, announcement⟩ := call
        · simp only [events, htask]
        · simp only [events, htask]
          rcases h.send? i command with ⟨hp, hq⟩ | ⟨p', q', hp, hq, -⟩ <;> simp [hp, hq]
      obtain ⟨hresult, halike⟩ := h.stepCall call
      refine (and_assoc.mp ⟨?_, hevents⟩)
      -- what the caller does next depends on the result of the step alone
      simp only [step, htask]
      generalize p.stepCall call = x at *
      generalize q.stepCall call = y at *
      obtain ⟨result, p'⟩ := x
      obtain ⟨result', q'⟩ := y
      obtain rfl : result' = result := hresult
      rcases result' with e | _ | call' <;> cases ticket <;> simp_all [Pipeline.Alike.withdraw]

/-! ### Workers of alike pipelines -/

section
variable [Repository σ] [Repository τ]

namespace Worker
variable {depthLimit : Nat} {w : Worker} {s : Shared σ} {t : Shared τ}

/-- The result of a save shows nowhere but in the counters of saves. -/
theorem persist_alike (h : s.Alike t) (x : Trace) :
    (persist depthLimit x w s).2.Alike (persist depthLimit x w t).2 := by
  have hrest : ∀ {ρ : Type} [Repository ρ] (r : Shared ρ),
      (persist depthLimit x w r).2.awaited = r.awaited ∧
        (persist depthLimit x w r).2.answers = r.answers := by
    intro ρ _ r
    simp only [persist]
    split <;> exact ⟨rfl, rfl⟩
  have hcount : ∀ (result : Except StoreFault Unit) {k : Counter}, k ≠ .persistedTraces →
      k ≠ .failedPersists → ((Deed.save x result).counters depthLimit).count k
        = [reductionCounter (x.reduce depthLimit)].count k := by
    intro result k hsaved hfailed
    unfold Deed.counters
    rw [List.count_cons, List.count_cons]
    split <;> simp [Ne.symm hsaved, Ne.symm hfailed]
  refine ⟨fun k hsaved hfailed => ?_, ?_, ?_⟩
  · rw [counters_persist, counters_persist, Counters.get_tally_ones, Counters.get_tally_ones,
      hcount _ hsaved hfailed, hcount _ hsaved hfailed, h.counters k hsaved hfailed]
  · rw [(hrest s).1, (hrest t).1, h.awaited]
  · rw [(hrest s).2, (hrest t).2, h.answers]

theorem persist_worker (x : Trace) (hsave : (Repository.save (reduced depthLimit x) s.store).1
    ≠ .error .crashed) : (persist depthLimit x w s).1 = w := by
  rw [worker_persist]
  split
  · next hcrash => exact absurd hcrash hsave
  · rfl

/-- A worker does the same in both, as long as no save breaks down. -/
theorem step?_alike (h : s.Alike t)
    (hs : ∀ x, .save x (.error .crashed) ∉ w.deeds depthLimit s.store)
    (ht : ∀ x, .save x (.error .crashed) ∉ w.deeds depthLimit t.store) :
    w.step? depthLimit s = none ∧ w.step? depthLimit t = none ∨
      ∃ w' s' t', w.step? depthLimit s = some (w', s') ∧ w.step? depthLimit t = some (w', t') ∧
        s'.Alike t' := by
  cases hrunning : w.running with
  | false => exact .inl (by simp [step?, hrunning])
  | true =>
    unfold step?
    rw [if_pos hrunning, if_pos hrunning]
    cases hclosed : w.closed with
    | cons x closed =>
      rw [deeds_of_closed hrunning hclosed] at hs ht
      have hsave := persist_worker (w := { w with closed := closed }) (s := s) x
        fun e => hs x (List.mem_singleton.mpr (congrArg (Deed.save x) e.symm))
      have hsave' := persist_worker (w := { w with closed := closed }) (s := t) x
        fun e => ht x (List.mem_singleton.mpr (congrArg (Deed.save x) e.symm))
      exact .inr ⟨{ w with closed := closed }, _, _, congrArg some (Prod.ext hsave rfl),
        congrArg some (Prod.ext hsave' rfl), persist_alike h x⟩
    | nil =>
      cases w.inbox with
      | nil => exact .inl ⟨rfl, rfl⟩
      | cons command inbox =>
        right
        cases command with
        | ingest spans =>
          cases spans with
          | nil => exact ⟨_, _, _, rfl, rfl, h⟩
          | cons span spans => exact ⟨_, _, _, rfl, rfl, h.note _⟩
        | advance time => exact ⟨_, _, _, rfl, rfl, h.note _⟩
        | report ticket => exact ⟨_, _, _, rfl, rfl, h.answer ticket _⟩
        | shutdown => exact ⟨_, _, _, rfl, rfl, (h.note _).say _ _⟩

theorem deeds_unanswered (depthLimit : Nat) (w : Worker) (s : σ) (t : τ) :
    (w.deeds depthLimit t).map Deed.unanswered = (w.deeds depthLimit s).map Deed.unanswered := by
  unfold deeds
  split
  · split <;> rfl
  · rfl

end Worker

theorem Pipeline.Alike.stepWorker? {p : Pipeline σ} {q : Pipeline τ} (h : p.Alike q) {i : Nat}
    {w : Worker} (hw : p.workers[i]? = some w)
    (hp : ∀ x, .save x (.error .crashed) ∉ w.deeds p.depthLimit p.shared.store)
    (hq : ∀ x, .save x (.error .crashed) ∉ w.deeds p.depthLimit q.shared.store) :
    p.stepWorker? i = none ∧ q.stepWorker? i = none ∨
      ∃ p' q', p.stepWorker? i = some p' ∧ q.stepWorker? i = some q' ∧ p'.Alike q' := by
  simp only [Pipeline.stepWorker?, h.workers, h.depthLimit, hw]
  rcases Worker.step?_alike h.shared hp hq with ⟨hs, ht⟩ | ⟨w', s', t', hs, ht, halike⟩
  · simp [hs, ht]
  · exact .inr ⟨_, _, by simp [hs], by simp [ht], h.put i w w' halike⟩

/-! ### Schedules -/

namespace System
variable {s : System σ} {t : System τ}

/-- A worker does the same in both, but for the answers of the repositories. -/
theorem Alike.events_worker (h : s.Alike t) (i : Nat) :
    (t.events (.worker i)).map Event.unanswered = (s.events (.worker i)).map Event.unanswered := by
  simp only [events, h.pipeline.workers, h.pipeline.depthLimit]
  cases s.pipeline.workers[i]? with
  | none => rfl
  | some w =>
    have hdeeds := congrArg (List.map (Event.did i)) (w.deeds_unanswered s.pipeline.depthLimit
      s.pipeline.shared.store t.pipeline.shared.store)
    rw [List.map_map, List.map_map] at hdeeds
    rw [List.map_map, List.map_map]
    exact hdeeds

/-- If nothing crashes in a move, then no save of the worker breaks down. -/
theorem save_notMem_deeds {i : Nat} {w : Worker} (hw : s.pipeline.workers[i]? = some w)
    (hs : ∀ e ∈ s.events (.worker i), e.isCrash = false) (x : Trace) :
    .save x (.error .crashed) ∉ w.deeds s.pipeline.depthLimit s.pipeline.shared.store := by
  intro hx
  simp only [events, hw, List.forall_mem_map] at hs
  simpa [Event.isCrash] using hs _ hx

theorem Alike.move (h : s.Alike t) (actor : Actor) (hs : ∀ e ∈ s.events actor, e.isCrash = false)
    (ht : ∀ e ∈ t.events actor, e.isCrash = false) :
    (s.move actor).Alike (t.move actor) ∧
      (t.events actor).map Event.unanswered = (s.events actor).map Event.unanswered := by
  cases actor with
  | caller i =>
    simp only [System.move, events, h.callers]
    cases s.callers[i]? with
    | none => exact ⟨h, rfl⟩
    | some c =>
      obtain ⟨hcaller, halike, hevents⟩ := c.step_alike h.pipeline
      exact ⟨⟨halike, congrArg (s.callers.set i) hcaller⟩, congrArg _ hevents⟩
  | worker i =>
    refine ⟨?_, h.events_worker i⟩
    cases hw : s.pipeline.workers[i]? with
    | none =>
      have hnone : s.pipeline.stepWorker? i = none := by simp [Pipeline.stepWorker?, hw]
      have hnone' : t.pipeline.stepWorker? i = none := by
        simp [Pipeline.stepWorker?, h.pipeline.workers, hw]
      simp only [System.move, hnone, hnone']
      exact h
    | some w =>
      have hp := save_notMem_deeds hw hs
      have hq := save_notMem_deeds (h.pipeline.workers ▸ hw) ht
      rw [h.pipeline.depthLimit] at hq
      simp only [System.move]
      rcases h.pipeline.stepWorker? hw hp hq with ⟨hp, hq⟩ | ⟨p', q', hp, hq, halike⟩
      · rw [hp, hq]
        exact h
      · rw [hp, hq]
        exact ⟨halike, h.callers⟩

/-- Under one schedule the same happens to both, but for the answers of the repositories. -/
theorem Alike.run (h : s.Alike t) (schedule : List Actor)
    (hs : ∀ e ∈ s.history schedule, e.isCrash = false)
    (ht : ∀ e ∈ t.history schedule, e.isCrash = false) :
    (s.run schedule).Alike (t.run schedule) ∧
      (t.history schedule).map Event.unanswered = (s.history schedule).map Event.unanswered := by
  induction schedule generalizing s t with
  | nil => exact ⟨h, rfl⟩
  | cons actor schedule ih =>
    simp only [history, List.mem_append, or_imp, forall_and] at hs ht
    obtain ⟨halike, hevents⟩ := h.move actor hs.1 ht.1
    obtain ⟨hrun, hhistory⟩ := ih halike hs.2 ht.2
    refine ⟨hrun, ?_⟩
    rw [history, history, List.map_append, List.map_append, hevents, hhistory]

end System
end

/-! ### What becomes of closed traces -/

/-- Every trace that is handed over has been reduced or left as it is. -/
theorem Deed.count_reductions (depthLimit : Nat) (d : Deed) :
    (d.counters depthLimit).count .reducedTraces + (d.counters depthLimit).count .reductionFallbacks
      = d.closed?.toList.length := by
  cases d with
  | save t result =>
    obtain (_ | _) | _ := result <;> cases h : t.reduce depthLimit <;>
      simp [counters, closed?, h, Worker.reductionCounter]
  | _ => rfl

/-- Unless the save breaks down, it has been saved or refused. -/
theorem Deed.count_saves (depthLimit : Nat) {d : Deed} (hd : ∀ t, d ≠ .save t (.error .crashed)) :
    (d.counters depthLimit).count .persistedTraces + (d.counters depthLimit).count .failedPersists
      = d.closed?.toList.length := by
  cases d with
  | save t result =>
    obtain (_ | _) | _ := result <;> cases h : t.reduce depthLimit <;>
      simp_all [counters, closed?, Worker.reductionCounter]
  | _ => rfl

theorem count_counted {depthLimit : Nat} {k k' : Counter} {h : List Event}
    (hone : ∀ i d, .did i d ∈ h → (d.counters depthLimit).count k + (d.counters depthLimit).count k'
      = d.closed?.toList.length) :
    (counted depthLimit h).count k + (counted depthLimit h).count k'
      = (results Deed.closed? h).length := by
  induction h with
  | nil => rfl
  | cons e h ih =>
    have hrest := ih fun i d hd => hone i d (.tail _ hd)
    cases e with
    | sent i c => exact hrest
    | did i d =>
      have hsplit : results Deed.closed? (.did i d :: h)
          = d.closed?.toList ++ results Deed.closed? h := by
        cases hd : d.closed? <;> simp [results, hd]
      have hcounted : counted depthLimit (.did i d :: h)
          = d.counters depthLimit ++ counted depthLimit h := rfl
      have hfirst := hone i d List.mem_cons_self
      rw [hcounted, hsplit, List.count_append, List.count_append, List.length_append]
      omega

/-- As many traces have been reduced or left as they are as were handed over. -/
theorem counted_reductions (depthLimit : Nat) (h : List Event) :
    (counted depthLimit h).count .reducedTraces + (counted depthLimit h).count .reductionFallbacks
      = (results Deed.closed? h).length :=
  count_counted fun _ d _ => d.count_reductions depthLimit

/-- As many have been saved or refused, as long as no save breaks down. -/
theorem counted_saves (depthLimit : Nat) {h : List Event} (hcrashes : ∀ e ∈ h, e.isCrash = false) :
    (counted depthLimit h).count .persistedTraces + (counted depthLimit h).count .failedPersists
      = (results Deed.closed? h).length := by
  refine count_counted fun i d hd => Deed.count_saves depthLimit fun t e => ?_
  have hcrash := hcrashes _ (e ▸ hd)
  simp [Event.isCrash] at hcrash

/-- The numbers that tell the same of the closed traces: as many are emitted as are reduced or left
as they are, and as are saved or refused. -/
def Counters.Balanced (c : Counters) : Prop :=
  (c.get .reconstructedTraces).toNat
      = (c.get .reducedTraces).toNat + (c.get .reductionFallbacks).toNat ∧
    (c.get .reconstructedTraces).toNat
      = (c.get .persistedTraces).toNat + (c.get .failedPersists).toNat

namespace System
variable {c : WindowConfig} {h : List Event} {s : System σ}

/-- What the workers did is what each of them did. -/
theorem Recorded.length_results (hr : Recorded c h s) (f : Deed → Option Trace) :
    ((List.range s.pipeline.workers.size).flatMap fun i => (deedsOf i h).filterMap f).length
      = (results f h).length := by
  have hperm := List.flatMap_filter_perm hr.worker_lt fun e => (results f [e])
  have hresults : ∀ es : List Event, (es.flatMap fun e => results f [e]) = results f es := by
    intro es
    rw [results, List.filterMap_eq_flatMap_toList]
    refine List.flatMap_congr fun e _ => ?_
    cases e with
    | sent i d => rfl
    | did i d => cases hd : f d <;> simp [results, hd]
  simp only [hresults, results_filter_worker] at hperm
  exact hperm.length_eq

/-- As long as no save breaks down, a worker has handed over all that its assembler emitted, but for
what waits in it. -/
theorem Recorded.closed_eq (hr : Recorded c h s) (hcrashes : ∀ e ∈ h, e.isCrash = false)
    (hended : ∀ w ∈ s.pipeline.workers, w.running = false → w.closed = []) {i : Nat} {w : Worker}
    (hw : s.pipeline.workers[i]? = some w) :
    (deedsOf i h).filterMap Deed.closed? ++ w.closed = (c.after (deedsOf i h)).2.traces := by
  cases hr.standing i w hw with
  | running _ _ _ _ hclosed => exact hclosed
  | ended hrunning hdeeds _ _ hclosed =>
    rw [hended w (Array.mem_of_getElem? hw) hrunning, List.append_nil, hdeeds,
      WindowConfig.after_perform, Emission.traces_append, ← hclosed, List.filterMap_append]
    rfl
  | broken _ _ hcrash =>
    have := hcrashes _ (mem_deedsOf.mp hcrash)
    simp [Event.isCrash] at this

/-- What the assemblers report as emitted is what has been handed over, if nothing waits. -/
theorem Recorded.account_reconstructed (hc : c.Valid) (hr : Recorded c h s)
    (hcrashes : ∀ e ∈ h, e.isCrash = false) (hidle : ∀ w ∈ s.pipeline.workers, w.closed = []) :
    account c h s .reconstructedTraces = (results Deed.closed? h).length := by
  rw [account_of_reported rfl, ← hr.length_results, reported, Counters.raised_flatMap_eq_countP
    (g := fun i => (deedsOf i h).filterMap Deed.closed?) (P := fun _ => true), List.countP_true]
  intro i hi
  have hw := Array.getElem?_eq_getElem (List.mem_range.mp hi)
  have hclosed := hr.closed_eq hcrashes (fun w hw _ => hidle w hw) hw
  rw [hidle _ (Array.mem_of_getElem? hw), List.append_nil] at hclosed
  rw [List.countP_true, hclosed]
  exact Assembler.raised_reconstructed_run (Assembler.sound_new hc) (Assembler.settled_new c) _

variable [Repository σ]

/-- Nothing waits in a worker that has ended. -/
theorem closed_of_ended {s : System σ} (hs : ∀ w ∈ s.pipeline.workers, w.running = true)
    (schedule : List Actor) :
    ∀ w ∈ (s.run schedule).pipeline.workers, w.running = false → w.closed = [] := by
  refine run_induction (I := fun p => ∀ w ∈ p.workers, w.running = false → w.closed = [])
    ?_ ?_ (fun w hw hended => absurd (hs w hw) (by simp [hended])) schedule
  · intro c p hp w hw hended
    obtain ⟨v, hv, e⟩ := (c.sameWork_step p).exists_worker hw
    rw [e] at hended ⊢
    exact hp v hv hended
  · intro i p q hp hq w hw hended
    obtain ⟨v, v', shared, -, hrunning, hstep, hworkers, -⟩ := Pipeline.stepWorker?_eq_some hq
    rw [hworkers] at hw
    rcases Array.mem_or_eq_of_mem_setIfInBounds hw with hw | rfl
    · exact hp w hw hended
    · cases hstep with
      | save hclosed =>
        rw [Worker.worker_persist] at hended ⊢
        split at hended
        · rfl
        · exact absurd hrunning (by simpa using hended)
      | shutdown => rfl
      | _ => exact absurd hrunning (by simpa using hended)

/-- Between commands the counters of what becomes of traces agree with that of the emitted ones. -/
theorem balanced_run {settings : Settings} (hvalid : settings.windows.Valid) (store : σ)
    (scripts : List (List Request)) (schedule : List Actor) :
    let s := start (Pipeline.initial settings store) scripts
    (∀ e ∈ s.history schedule, e.isCrash = false) →
    (∀ w ∈ (s.run schedule).pipeline.workers, w.closed = []) →
    (results Deed.closed? (s.history schedule)).length < UInt64.size →
    (s.run schedule).pipeline.shared.counters.Balanced := by
  intro s hcrashes hidle hlt
  have hr := recorded_run settings store scripts schedule
  have hcounter : ∀ k, k ≠ .receivedSpans → ∀ n, n < UInt64.size →
      account settings.windows (s.history schedule) (s.run schedule) k = n →
      ((s.run schedule).pipeline.shared.counters.get k).toNat = n := by
    intro k hk n hn haccount
    rw [counted_run settings store scripts schedule hk, haccount]
    exact UInt64.toNat_ofNat_of_lt hn
  have hemitted := hcounter .reconstructedTraces (by simp) _ hlt
    (hr.account_reconstructed hvalid hcrashes hidle)
  have hreduced := counted_reductions (s.run schedule).pipeline.depthLimit (s.history schedule)
  have hsaved := counted_saves (s.run schedule).pipeline.depthLimit hcrashes
  have houtcome : ∀ k, k.isOutcome = true →
      (counted (s.run schedule).pipeline.depthLimit (s.history schedule)).count k < UInt64.size →
      ((s.run schedule).pipeline.shared.counters.get k).toNat
        = (counted (s.run schedule).pipeline.depthLimit (s.history schedule)).count k :=
    fun k hk hlt => hcounter k (by rintro rfl; simp [Counter.isOutcome] at hk) _ hlt
      (account_of_outcome hk)
  constructor
  · rw [hemitted, houtcome .reducedTraces rfl (by omega), houtcome .reductionFallbacks rfl (by omega),
      hreduced]
  · rw [hemitted, houtcome .persistedTraces rfl (by omega), houtcome .failedPersists rfl (by omega),
      hsaved]

/-- Whatever two repositories make of the saves, as long as none breaks down: under one schedule of
the same requests, the workers hand over the same traces in the same order, every trace that an
assembler emits once, and stand at the same point; so do the callers; and the counters agree but for
those of the saves.  Whenever no worker has a trace in hand, the counters of what becomes of traces
add up to that of the emitted ones. -/
theorem save_failures_isolated {settings : Settings} (hsettings : settings.check = .ok ())
    [Repository τ] (store : σ) (store' : τ) :
    ∃ p q, Pipeline.start settings ({ store := store } : Recorder σ) = .ok p ∧
      Pipeline.start settings ({ store := store' } : Recorder τ) = .ok q ∧
      ∀ scripts schedule,
        let s := (start p scripts).run schedule
        let t := (start q scripts).run schedule
        let happened := (start p scripts).history schedule
        let happened' := (start q scripts).history schedule
        (∀ e ∈ happened, e.isCrash = false) → (∀ e ∈ happened', e.isCrash = false) →
        (∀ i, (deedsOf i happened').filterMap Deed.closed?
          = (deedsOf i happened).filterMap Deed.closed?) ∧
        (∀ i w, s.pipeline.workers[i]? = some w →
          (deedsOf i happened).filterMap Deed.closed? ++ w.closed
            = (settings.windows.after (deedsOf i happened)).2.traces) ∧
        s.pipeline.shared.store.saves
          = (results Deed.closed? happened).map (Worker.reduced p.depthLimit) ∧
        t.pipeline.shared.store.saves = s.pipeline.shared.store.saves ∧
        t.pipeline.workers = s.pipeline.workers ∧ t.pipeline.watermark = s.pipeline.watermark ∧
        t.callers = s.callers ∧
        (∀ k, k ≠ .persistedTraces → k ≠ .failedPersists →
          t.pipeline.shared.counters.get k = s.pipeline.shared.counters.get k) ∧
        ((∀ w ∈ s.pipeline.workers, w.closed = []) →
          (results Deed.closed? happened).length < UInt64.size →
          s.pipeline.shared.counters.Balanced ∧ t.pipeline.shared.counters.Balanced) := by
  have hvalid := (Settings.check_eq_ok_iff.mp hsettings).1
  refine ⟨_, _, Pipeline.start_eq hsettings _, Pipeline.start_eq hsettings _, ?_⟩
  intro scripts schedule s t happened happened' hcrashes hcrashes'
  obtain ⟨halike, hhappened⟩ := (alike_start settings ({ store := store } : Recorder σ)
    ({ store := store' } : Recorder τ) scripts).run schedule hcrashes hcrashes'
  have hr := recorded_run settings ({ store := store } : Recorder σ) scripts schedule
  have hresults : results Deed.closed? happened' = results Deed.closed? happened := by
    rw [← results_unanswered, hhappened, results_unanswered]
  have hsaves := saves_run (start (Pipeline.initial settings ({ store := store } : Recorder σ))
    scripts) schedule
  have hsaves' := saves_run (start (Pipeline.initial settings ({ store := store' } : Recorder τ))
    scripts) schedule
  refine ⟨fun i => ?_, fun i w hw => ?_, hsaves, ?_, halike.pipeline.workers,
    halike.pipeline.watermark, halike.callers, halike.pipeline.shared.counters, fun hidle hlt => ?_⟩
  · rw [← filterMap_closed?_unanswered, ← deedsOf_unanswered, hhappened, deedsOf_unanswered,
      filterMap_closed?_unanswered]
  · refine hr.closed_eq hcrashes (closed_of_ended (fun w hw => ?_) schedule) hw
    obtain ⟨j, -, rfl⟩ := Array.mem_map.mp hw
    rfl
  · rw [show t.pipeline.shared.store.saves = _ from hsaves', show results Deed.closed? _ = _ from hresults]
    exact hsaves.symm
  · refine ⟨balanced_run hvalid _ scripts schedule hcrashes hidle hlt,
      balanced_run hvalid _ scripts schedule hcrashes' (halike.pipeline.workers ▸ hidle) ?_⟩
    exact hresults ▸ hlt

/-- Two workers, and a store that rejects one of two traces. -/
theorem save_failures_isolated_rejected_trace :
    let span (trace id : String) (time : Timestamp) : Span :=
      { traceId := trace, spanId := id, parentSpanId := id, operationHash := "f", startTime := time }
    let scripts : List (List Request) :=
      [[.ingest [span "1" "a" 5, span "2" "b" 6], .advance 30000], [.ingest [span "3" "c" 9]]]
    let schedule : List Actor :=
      (List.replicate 14 [.caller 1, .caller 0, .worker 0, .worker 1]).flatten
    let picky : FaultyStore := { plan := FaultyStore.planOf [] ["2"] none }
    ∃ p q, Pipeline.start { partitions := 2 } ({ store := picky } : Recorder FaultyStore) = .ok p ∧
      Pipeline.start { partitions := 2 } ({ store := {} } : Recorder Store) = .ok q ∧
      let s := (start p scripts).run schedule
      let t := (start q scripts).run schedule
      (s.pipeline.shared.store.saves.map Trace.traceId) = ["1", "2", "3"] ∧
      t.pipeline.shared.store.saves = s.pipeline.shared.store.saves ∧
      s.pipeline.shared.counters.get .failedPersists = 1 ∧
      t.pipeline.shared.counters.get .failedPersists = 0 ∧
      s.pipeline.shared.counters.Balanced ∧ t.pipeline.shared.counters.Balanced := by
  intro span scripts schedule picky
  have hsettings : Settings.check { partitions := 2 } = .ok () := by decide
  obtain ⟨p, q, hp, hq, hrun⟩ := save_failures_isolated hsettings picky ({} : Store)
  refine ⟨p, q, hp, hq, ?_⟩
  obtain rfl := Except.ok.inj (hp.symm.trans (Pipeline.start_eq hsettings _))
  obtain rfl := Except.ok.inj (hq.symm.trans (Pipeline.start_eq hsettings _))
  obtain ⟨-, -, -, hsaves, -, -, -, -, hbalanced⟩ := hrun scripts schedule (by decide +kernel)
    (by decide +kernel)
  refine ⟨by decide +kernel, hsaves, by decide +kernel, by decide +kernel, ?_⟩
  exact hbalanced (by decide +kernel) (by decide +kernel)

end System

end CallTrace
