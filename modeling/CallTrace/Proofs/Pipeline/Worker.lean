import CallTrace.Pipeline.Worker

/-! # Steps of a worker

What a worker can do is one of six things (`Worker.Step`): save a trace, leave an empty batch behind,
take a span or a time, answer, or end.  `Worker.step?` does nothing else
(`Worker.step_of_step?_eq_some`), so what these six keep is kept by every step.  It does one of them
as long as the worker runs and has something to do (`Worker.step?_eq_none_iff`). -/

namespace CallTrace

namespace Shared
variable {σ : Type} (ticket : Nat) (status : PartitionStatus) (s : Shared σ)

@[simp] theorem store_answer : (s.answer ticket status).store = s.store := by
  unfold answer
  split <;> rfl

@[simp] theorem counters_answer : (s.answer ticket status).counters = s.counters := by
  unfold answer
  split <;> rfl

end Shared

namespace Worker
variable {σ : Type} [Repository σ] {depthLimit : Nat} {w w' : Worker} {s s' : Shared σ}

/-! ### Saving -/

/-- What is saved of a trace. -/
def reduced (depthLimit : Nat) (t : Trace) : Trace := (t.reduce depthLimit).trace

theorem store_persist (t : Trace) (w : Worker) (s : Shared σ) :
    (persist depthLimit t w s).2.store = (Repository.save (reduced depthLimit t) s.store).2 := by
  simp only [persist]
  split <;> next h => exact (congrArg Prod.snd h).symm

/-- Saving leaves a worker alone, unless the save breaks down; then it ends the worker. -/
theorem worker_persist (t : Trace) (w : Worker) (s : Shared σ) :
    (persist depthLimit t w s).1 = match (Repository.save (reduced depthLimit t) s.store).1 with
      | .error .crashed => w.halted
      | _ => w := by
  simp only [persist]
  split <;> next h =>
    rw [show (Repository.save (reduced depthLimit t) s.store).1 = _ from congrArg Prod.fst h]

/-! ### Steps -/

/-- The steps of a worker that runs. -/
inductive Step (depthLimit : Nat) : Worker → Shared σ → Worker → Shared σ → Prop
  | save {w s t closed} (hclosed : w.closed = t :: closed) :
      Step depthLimit w s (persist depthLimit t { w with closed := closed } s).1
        (persist depthLimit t { w with closed := closed } s).2
  | batchEnd {w s inbox} (hclosed : w.closed = []) (hinbox : w.inbox = .ingest [] :: inbox) :
      Step depthLimit w s { w with inbox := inbox } s
  | push {w s span spans inbox} (hclosed : w.closed = [])
      (hinbox : w.inbox = .ingest (span :: spans) :: inbox) :
      Step depthLimit w s
        { w with
          assembler := (w.assembler.push span).1
          inbox := .ingest spans :: inbox
          closed := (w.assembler.push span).2.traces }
        (s.note (w.assembler.push span).2.notices)
  | advance {w s time inbox} (hclosed : w.closed = []) (hinbox : w.inbox = .advance time :: inbox) :
      Step depthLimit w s
        { w with
          assembler := (w.assembler.advance time).1
          inbox := inbox
          closed := (w.assembler.advance time).2.traces }
        (s.note (w.assembler.advance time).2.notices)
  | report {w s ticket inbox} (hclosed : w.closed = []) (hinbox : w.inbox = .report ticket :: inbox) :
      Step depthLimit w s { w with inbox := inbox } (s.answer ticket w.status)
  | shutdown {w s inbox} (hclosed : w.closed = []) (hinbox : w.inbox = .shutdown :: inbox) :
      Step depthLimit w s ({ w with assembler := w.assembler.discard.1 }.halted)
        ((s.note w.assembler.discard.2.2).say ⟨.debug, "Partition worker " ++ toString w.partition
          ++ " stopped, discarded " ++ toString w.assembler.discard.2.1 ++ " open windows"⟩)

theorem step_of_step?_eq_some (h : w.step? depthLimit s = some (w', s')) :
    w.running = true ∧ Step depthLimit w s w' s' := by
  unfold step? at h
  split at h
  · next hrunning =>
    refine ⟨hrunning, ?_⟩
    split at h
    · next t closed hclosed =>
      obtain ⟨rfl, rfl⟩ := Prod.mk.inj (Option.some.inj h)
      exact .save hclosed
    · next hclosed =>
      split at h
      · simp at h
      · next hinbox =>
        obtain ⟨rfl, rfl⟩ := Prod.mk.inj (Option.some.inj h)
        exact .batchEnd hclosed hinbox
      · next hinbox =>
        obtain ⟨rfl, rfl⟩ := Prod.mk.inj (Option.some.inj h)
        exact .push hclosed hinbox
      · next hinbox =>
        obtain ⟨rfl, rfl⟩ := Prod.mk.inj (Option.some.inj h)
        exact .advance hclosed hinbox
      · next hinbox =>
        obtain ⟨rfl, rfl⟩ := Prod.mk.inj (Option.some.inj h)
        exact .report hclosed hinbox
      · next hinbox =>
        obtain ⟨rfl, rfl⟩ := Prod.mk.inj (Option.some.inj h)
        exact .shutdown hclosed hinbox
  · simp at h

/-- A worker takes no step only if it has ended or has nothing to do. -/
theorem step?_eq_none_iff : w.step? depthLimit s = none ↔ w.running = false ∨ w.idle = true := by
  unfold step? idle
  cases w.running with
  | false => simp
  | true =>
    cases w.closed with
    | cons t closed => simp
    | nil =>
      cases w.inbox with
      | nil => simp
      | cons c inbox =>
        cases c with
        | ingest spans => cases spans <;> simp
        | advance time => simp
        | report ticket => simp
        | shutdown => simp

end Worker
end CallTrace
