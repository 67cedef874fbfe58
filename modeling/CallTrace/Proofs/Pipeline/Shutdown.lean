import CallTrace.Proofs.Pipeline.Accounts
import CallTrace.Proofs.Pipeline.Requests

/-! # A shutdown reaches every worker

A shutdown tells the workers one after the other and gives up at the first that has ended.  The
workers after that one may still run, so a caller that gives up leaves them to others.

A worker is covered if it has ended or a shutdown waits in its inbox, and it stays covered.  After
one that is covered there comes one that is covered too, or some caller is just about to send a
shutdown to it (`System.Spreads`): nobody but a caller that goes on to the next worker covers one.
So when no call is under way all workers are covered, and when none can go on all have ended.

A worker that ends by a shutdown drops the slots of its assembler, and those that could still have
been emitted are counted (`System.discarded_run`).  `System.shutdown_completes` puts this together
with what such a worker did before (`Worker.Standing.of_discard`). -/

namespace CallTrace

/-! ### Covered workers -/

/-- A worker that has ended, or ends when it gets to it. -/
def Worker.Ending (w : Worker) : Prop := w.running = false ∨ .shutdown ∈ w.inbox

namespace Worker
variable {σ : Type} [Repository σ] {depthLimit : Nat} {w w' : Worker} {s s' : Shared σ}

theorem Ending.step (h : w.Ending) (hrunning : w.running = true)
    (hstep : Step depthLimit w s w' s') : w'.Ending := by
  have hinbox : .shutdown ∈ w.inbox := h.resolve_left (by simp [hrunning])
  cases hstep with
  | @save t closed hclosed =>
    rw [worker_persist]
    split
    · exact .inl rfl
    · exact .inr hinbox
  | batchEnd _ hin => exact .inr (by simpa [hin] using hinbox)
  | push _ hin => exact .inr (by simpa [hin] using hinbox)
  | advance _ hin => exact .inr (by simpa [hin] using hinbox)
  | report _ hin => exact .inr (by simpa [hin] using hinbox)
  | shutdown => exact .inl rfl

/-- A worker does not come to end by a step of its own, unless a save breaks down. -/
theorem Ending.of_step (h : w'.Ending) (hrunning : w.running = true)
    (hstep : Step depthLimit w s w' s')
    (hsaves : ∀ t, .save t (.error .crashed) ∉ w.deeds depthLimit s.store) : w.Ending := by
  right
  have hrest : ∀ {command : Command} {inbox : List Command}, w.inbox = command :: inbox →
      .shutdown ∈ inbox → .shutdown ∈ w.inbox := fun hin h => hin ▸ .tail _ h
  cases hstep with
  | @save t closed hclosed =>
    rw [worker_persist] at h
    split at h
    · next hcrash =>
      rw [deeds_of_closed hrunning hclosed, hcrash] at hsaves
      exact absurd (List.mem_singleton_self _) (hsaves t)
    · exact h.resolve_left (by simp [hrunning])
  | batchEnd _ hin => exact hrest hin (h.resolve_left (by simp [hrunning]))
  | push _ hin =>
    have hmem := h.resolve_left (by simp [hrunning])
    exact hrest hin (by simpa using hmem)
  | advance _ hin => exact hrest hin (h.resolve_left (by simp [hrunning]))
  | report _ hin => exact hrest hin (h.resolve_left (by simp [hrunning]))
  | shutdown _ hin => exact hin ▸ List.mem_cons_self

end Worker

/-- Whether worker `k` is there and is going to end. -/
def Pipeline.Covered {σ : Type} (k : Nat) (p : Pipeline σ) : Prop :=
  ∃ w, p.workers[k]? = some w ∧ w.Ending

/-- Whether a caller is just about to send a shutdown to worker `k`, and then to those after it. -/
def Caller.Heading (n k : Nat) (c : Caller) : Prop :=
  ∃ ticket, c.task = some (.sending .shutdown ticket
    ⟨((List.range n).map fun i => (i, .shutdown)).drop k, none⟩)

theorem drop_range_map {n k : Nat} (hk : k < n) :
    ((List.range n).map fun i => (i, Command.shutdown)).drop k
      = (k, .shutdown) :: ((List.range n).map fun i => (i, .shutdown)).drop (k + 1) := by
  have hlt : k < ((List.range n).map fun i => (i, Command.shutdown)).length := by simpa using hk
  rw [List.drop_eq_getElem_cons hlt]
  simp

namespace Pipeline
variable {σ : Type} {p q : Pipeline σ} {i k : Nat} {w w' : Worker}

theorem covered_congr (hq : q.workers = p.workers) : q.Covered k ↔ p.Covered k := by
  unfold Covered
  rw [hq]

theorem covered_of_getElem? (hw : p.workers[k]? = some w) : p.Covered k ↔ w.Ending := by
  unfold Covered
  simp [hw]

/-- Only the worker that is replaced may get covered or uncovered. -/
theorem covered_set (hw : p.workers[i]? = some w) (hq : q.workers = p.workers.setIfInBounds i w') :
    q.Covered k ↔ if i = k then w'.Ending else p.Covered k := by
  have hlt := (Array.getElem?_eq_some_iff.mp hw).1
  unfold Covered
  rw [hq, Array.getElem?_setIfInBounds, if_pos hlt]
  split
  · simp
  · exact Iff.rfl

end Pipeline

/-- A caller that is about to tell a worker does so, or finds that it has ended. -/
theorem Caller.Heading.step {σ : Type} {c c' : Caller} {p q : Pipeline σ} {es : List Event} {k : Nat}
    (h : c.Heading p.workers.size k) (hk : k < p.workers.size) (hstep : Step c p es c' q) :
    q.Covered k ∨ c'.Heading p.workers.size k := by
  obtain ⟨ticket, htask⟩ := h
  have hnext := htask
  rw [drop_range_map hk] at hnext
  cases hstep with
  | pause => exact .inr ⟨ticket, htask⟩
  | begin htask' => simp [htask'] at htask
  | send htask' hw =>
    simp only [htask', Option.some.injEq, Task.sending.injEq, Call.mk.injEq, List.cons.injEq,
      Prod.mk.injEq] at hnext
    obtain ⟨-, -, ⟨⟨rfl, rfl⟩, -⟩, -⟩ := hnext
    left
    apply (Pipeline.covered_set hw rfl).mpr
    rw [if_pos rfl]
    exact .inr (List.mem_append_right _ (List.mem_singleton_self _))
  | refuse htask' hended =>
    simp only [htask', Option.some.injEq, Task.sending.injEq, Call.mk.injEq, List.cons.injEq,
      Prod.mk.injEq] at hnext
    obtain ⟨-, -, ⟨⟨rfl, -⟩, -⟩, -⟩ := hnext
    have hw := Array.getElem?_eq_getElem hk
    left
    apply (Pipeline.covered_congr (p.aside_release _).workers).mpr
    exact (Pipeline.covered_of_getElem? hw).mpr (.inl (hended _ hw))
  | announce htask' => simp [htask'] at hnext
  | finish htask' => simp [htask'] at hnext
  | collect htask' => simp [htask'] at htask

/-- A caller that asks for a shutdown begins with the first worker. -/
theorem Caller.Proper.heading_of_made {σ : Type} {c c' : Caller} {p q : Pipeline σ} {es : List Event}
    (h : c.Proper p.workers.size p.discard) (hstep : Step c p es c' q) (hmade : .shutdown ∈ c'.made) :
    .shutdown ∈ c.made ∨ c'.Heading p.workers.size 0 := by
  rcases h.made_step hstep with e | ⟨request, script, htask, -, rfl, -⟩
  · exact .inl (e ▸ hmade)
  · rcases List.mem_append.mp hmade with hreplied | hbegun
    · exact .inl (List.mem_append_left _ hreplied)
    · obtain rfl := List.mem_singleton.mp hbegun
      exact .inr ⟨_, rfl⟩

/-- A caller that covers a worker goes on to the next one. -/
theorem Caller.Proper.heading_of_covered {σ : Type} {c c' : Caller} {p q : Pipeline σ}
    {es : List Event} {k : Nat} (h : c.Proper p.workers.size p.discard) (hstep : Step c p es c' q)
    (hcovered : q.Covered k) : p.Covered k ∨ c'.Heading p.workers.size (k + 1) := by
  rcases hstep.aside_or_sent with ⟨-, haside⟩ | ⟨_, _, _, _, hes, -⟩
  · exact .inl ((Pipeline.covered_congr haside.workers).mp hcovered)
  · cases hstep with
    | @send request ticket j command sends announcement w ready htask hw hrunning =>
      have hset := (Pipeline.covered_set hw rfl).mp hcovered
      split at hset
      · next hjk =>
        subst hjk
        rcases List.mem_append.mp (hset.resolve_left (by simp [hrunning])) with hinbox | hcommand
        · exact .inl ⟨w, hw, .inr hinbox⟩
        · -- the command is a shutdown, so the workers after this one are what is left of the call
          obtain rfl := List.mem_singleton.mp hcommand
          have hleaves := h.leaves _ _ _ htask
          obtain rfl : request = .shutdown := hleaves.tells _ List.mem_cons_self
          obtain ⟨m, hm⟩ := hleaves.shutdown rfl
          obtain ⟨hsends, rfl⟩ := Call.mk.inj hm
          have hlt : m < p.workers.size := by
            by_contra hge
            rw [List.drop_eq_nil_of_le (by simpa using hge)] at hsends
            simp at hsends
          rw [drop_range_map hlt, List.cons.injEq, Prod.mk.injEq] at hsends
          obtain ⟨⟨rfl, -⟩, rfl⟩ := hsends
          exact .inr ⟨ticket, rfl⟩
      · exact .inl hset
    | _ => simp at hes

namespace System
variable {σ : Type} {h es : List Event} {s s' : System σ} {k : Nat}

/-- Whether a shutdown has got as far as worker `k`: the one before it is covered, or `k` is the first
one and somebody has asked for a shutdown. -/
def Reached (s : System σ) : Nat → Prop
  | 0 => .shutdown ∈ s.made
  | k + 1 => s.pipeline.Covered k

/-- A worker that a shutdown has got to is covered, or is just about to be told. -/
def Spreads (s : System σ) : Prop :=
  ∀ k < s.pipeline.workers.size, s.Reached k →
    s.pipeline.Covered k ∨ ∃ c ∈ s.callers, c.Heading s.pipeline.workers.size k

theorem spreads_start (p : Pipeline σ) (scripts : List (List Request))
    (hp : ∀ w ∈ p.workers, w.running = true ∧ w.inbox = []) : (start p scripts).Spreads := by
  intro k hk hreached
  cases k with
  | zero =>
    obtain ⟨c, hc, hmade⟩ := mem_made.mp hreached
    obtain ⟨script, -, rfl⟩ := List.mem_map.mp hc
    simp [Caller.made] at hmade
  | succ k =>
    obtain ⟨w, hw, hended | hinbox⟩ := hreached
    · simp [(hp w (Array.mem_of_getElem? hw)).1] at hended
    · simp [(hp w (Array.mem_of_getElem? hw)).2] at hinbox

variable [Repository σ]

theorem Step.covered (hstep : s.Step es s') (hcovered : s.pipeline.Covered k) :
    s'.pipeline.Covered k := by
  cases hstep with
  | pass => exact hcovered
  | @worker i w w' shared q hw hrunning hstep hput =>
    apply (Pipeline.covered_set hw hput.workers).mpr
    split
    · next hik => exact ((Pipeline.covered_of_getElem? (hik ▸ hw)).mp hcovered).step hrunning hstep
    · exact hcovered
  | caller hc hstep =>
    rcases hstep.aside_or_sent with ⟨-, haside⟩ | ⟨i, command, w, ready, -, hw, -, rfl⟩
    · exact (Pipeline.covered_congr haside.workers).mpr hcovered
    · apply (Pipeline.covered_set hw rfl).mpr
      split
      · next hik =>
        have hending := (Pipeline.covered_of_getElem? (hik ▸ hw)).mp hcovered
        exact hending.imp_right (List.mem_append_left _)
      · exact hcovered

/-- Nobody but a caller that goes on to the next worker covers one. -/
theorem Step.covered_of (ha : Asked h s) (hstep : s.Step es s')
    (hcrashes : ∀ e ∈ es, e.isCrash = false) (hcovered : s'.pipeline.Covered k) :
    s.pipeline.Covered k ∨ ∃ c ∈ s'.callers, c.Heading s.pipeline.workers.size (k + 1) := by
  cases hstep with
  | pass => exact .inl hcovered
  | @worker i w w' shared q hw hrunning hstep hput =>
    left
    have hset := (Pipeline.covered_set hw hput.workers).mp hcovered
    split at hset
    · next hik =>
      apply (Pipeline.covered_of_getElem? (hik ▸ hw)).mpr
      refine hset.of_step hrunning hstep fun t ht => ?_
      simpa [Event.isCrash] using hcrashes _ (List.mem_map_of_mem ht)
    · exact hset
  | @caller i c c' q _ hc hstep =>
    have hproper := ha.proper c (List.mem_of_getElem? hc)
    have hmem : c' ∈ s.callers.set i c' := List.mem_set (List.getElem?_eq_some_iff.mp hc).1 c'
    exact (hproper.heading_of_covered hstep hcovered).imp_right fun h => ⟨c', hmem, h⟩

/-- A shutdown does not get any further but by a caller that is just about to tell the worker. -/
theorem Step.reached_of (ha : Asked h s) (hstep : s.Step es s')
    (hcrashes : ∀ e ∈ es, e.isCrash = false) (hreached : s'.Reached k) :
    s.Reached k ∨ ∃ c ∈ s'.callers, c.Heading s.pipeline.workers.size k := by
  cases k with
  | succ k => exact hstep.covered_of ha hcrashes hreached
  | zero =>
    cases hstep with
    | pass => exact .inl hreached
    | worker => exact .inl hreached
    | @caller i c c' q _ hc hstep =>
      have hmem : c' ∈ s.callers.set i c' := List.mem_set (List.getElem?_eq_some_iff.mp hc).1 c'
      have hc := List.mem_of_getElem? hc
      obtain ⟨d, hd, hmade⟩ := mem_made.mp hreached
      rcases List.mem_or_eq_of_mem_set hd with hd | rfl
      · exact .inl (mem_made.mpr ⟨d, hd, hmade⟩)
      · rcases (ha.proper c hc).heading_of_made hstep hmade with hmade | hheading
        · exact .inl (mem_made.mpr ⟨c, hc, hmade⟩)
        · exact .inr ⟨_, hmem, hheading⟩

theorem Spreads.step (hs : s.Spreads) (ha : Asked h s) (hstep : s.Step es s')
    (hcrashes : ∀ e ∈ es, e.isCrash = false) : s'.Spreads := by
  intro k hk hreached
  rw [hstep.same.1] at hk ⊢
  rcases hstep.reached_of ha hcrashes hreached with hreached | hheading
  · rcases hs k hk hreached with hcovered | hheading
    · exact .inl (hstep.covered hcovered)
    · cases hstep with
      | pass => exact .inr hheading
      | worker => exact .inr hheading
      | @caller i c c' q _ hc hstep =>
        by_cases hcovered : q.Covered k
        · exact .inl hcovered
        · exact .inr (exists_mem_set hc (fun h => (h.step hk hstep).resolve_left hcovered) hheading)
  · exact .inr hheading

theorem spreads_run (p : Pipeline σ) (hp : ∀ w ∈ p.workers, w.running = true ∧ w.inbox = [])
    (scripts : List (List Request)) (schedule : List Actor)
    (hcrashes : ∀ e ∈ (start p scripts).history schedule, e.isCrash = false) :
    ((start p scripts).run schedule).Spreads := by
  refine (history_induction (I := fun h s => Asked h s ∧
    ((∀ e ∈ h, e.isCrash = false) → s.Spreads))
    ?_ ⟨asked_start p scripts, fun _ => spreads_start p scripts hp⟩ schedule).2 hcrashes
  rintro h s es s' ⟨ha, hs⟩ hstep
  refine ⟨ha.step hstep, fun hcrashes => ?_⟩
  have hbefore := hs fun e he => hcrashes e (List.mem_append_left _ he)
  exact hbefore.step ha hstep fun e he => hcrashes e (List.mem_append_right _ he)

/-- When no call is under way and no worker can go on, a shutdown has ended all workers. -/
theorem Spreads.ended (hs : s.Spreads) (hasked : .shutdown ∈ s.made)
    (hreturned : ∀ c ∈ s.callers, c.task = none) (hstuck : ∀ i, s.pipeline.stepWorker? i = none) :
    ∀ w ∈ s.pipeline.workers, w.running = false := by
  have hreached : ∀ k < s.pipeline.workers.size, s.Reached k → s.pipeline.Covered k := by
    intro k hk hreached
    rcases hs k hk hreached with hcovered | ⟨c, hc, ticket, htask⟩
    · exact hcovered
    · simp [hreturned c hc] at htask
  have hcovered : ∀ k < s.pipeline.workers.size, s.pipeline.Covered k := by
    intro k hk
    induction k with
    | zero => exact hreached 0 hk hasked
    | succ k ih => exact hreached (k + 1) hk (ih (by omega))
  intro w hw
  obtain ⟨k, hk, rfl⟩ := Array.mem_iff_getElem.mp hw
  have hget := Array.getElem?_eq_getElem hk
  rcases Pipeline.ended_or_idle hget (hstuck k) with hended | hidle
  · exact hended
  · apply ((Pipeline.covered_of_getElem? hget).mp (hcovered k hk)).resolve_right
    simp only [Worker.idle, Bool.and_eq_true, List.isEmpty_iff] at hidle
    simp [hidle]

end System

/-! ### Dropped slots -/

namespace Assembler
variable {a : Assembler}

theorem raised_discarded_run (h : a.Sound) (hs : a.Settled) {ops : List Operation}
    (hops : .discard ∉ ops) : Counters.raised .discardedWindows (a.run ops).2.notices = 0 := by
  rw [← length_discards_run h hs, discards_run_of_not_mem hops, List.length_nil]

end Assembler

/-- The slots that worker `i` had to drop, if it has taken a shutdown: those of its assembler after
all that was sent to it before. -/
def WindowConfig.dropped (c : WindowConfig) (h : List Event) (i : Nat) : List Slot :=
  if .did i (.perform .discard) ∈ h then
    (c.after (((sentTo i h).takeWhile (· ≠ .shutdown)).flatMap Command.deeds)).1.slots
  else []

theorem WindowConfig.after_filter_isWork (c : WindowConfig) (deeds : List Deed) :
    c.after (deeds.filter Deed.isWork) = c.after deeds := by
  unfold after
  rw [Deed.filterMap_filter_isWork fun _ _ => rfl]

namespace System
variable {σ : Type} {c : WindowConfig} {h es : List Event} {s s' : System σ}

/-- The assemblers report as discarded what was dropped. -/
theorem Recorded.raised_reported (hc : c.Valid) (hr : Recorded c h s) :
    Counters.raised .discardedWindows (reported c h s)
      = ((List.range s.pipeline.workers.size).flatMap (c.dropped h)).countP
          fun slot => !slot.overflowed := by
  have hquiet : ∀ deeds : List Deed, .perform .discard ∉ deeds →
      Counters.raised .discardedWindows (c.after deeds).2.notices = 0 := by
    intro deeds hdeeds
    refine Assembler.raised_discarded_run (Assembler.sound_new hc) (Assembler.settled_new c)
      fun hmem => ?_
    obtain ⟨d, hd, e⟩ := List.mem_filterMap.mp hmem
    cases d with
    | perform o => exact hdeeds (Option.some.inj e ▸ hd)
    | _ => simp [Deed.operation?] at e
  refine Counters.raised_flatMap_eq_countP fun i hi => ?_
  have hstanding := hr.standing i _ (Array.getElem?_eq_getElem (List.mem_range.mp hi))
  unfold WindowConfig.dropped
  split
  · next hdiscard =>
    obtain ⟨-, -, before, hdeeds, hopen, hwork, -⟩ :=
      hstanding.of_discard (mem_deedsOf.mpr hdiscard)
    rw [hdeeds, WindowConfig.after_perform, Emission.notices_append, Counters.raised_append,
      hquiet before hopen, Nat.zero_add, Assembler.raised_discarded_perform
        (hc.sound_after before) (hc.settled_after before), if_pos rfl, ← hwork,
      WindowConfig.after_filter_isWork]
    rfl
  · next hnone => exact hquiet _ fun hmem => hnone (mem_deedsOf.mp hmem)

variable [Repository σ]

/-- The cell of dropped windows shows what the assemblers report as discarded. -/
theorem discarded_run (settings : Settings) (store : σ) (scripts : List (List Request))
    (schedule : List Actor) :
    let s := start (Pipeline.initial settings store) scripts
    (s.run schedule).pipeline.shared.counters.get .discardedWindows
      = (Counters.raised .discardedWindows
          (reported settings.windows (s.history schedule) (s.run schedule))).toUInt64 := by
  intro s
  rw [← account_of_reported rfl]
  exact counted_run settings store scripts schedule Counter.noConfusion

/-- However many callers ask for a shutdown, and whatever else goes on: when somebody has, no call is
under way and no worker can go on, all workers have ended, unless a save broke down together with its
worker.  A worker that has taken a shutdown did everything that was sent to it before the first one,
saved all that came of it, and did nothing after it.  What such workers had to drop, and could still
have emitted, is counted. -/
theorem shutdown_completes {settings : Settings} (hsettings : settings.check = .ok ()) (store : σ) :
    ∃ p, Pipeline.start settings store = .ok p ∧
      ∀ (scripts : List (List Request)) (schedule : List Actor),
        let s := (start p scripts).run schedule
        let happened := (start p scripts).history schedule
        ((∀ e ∈ happened, e.isCrash = false) → .shutdown ∈ s.made →
          (∀ c ∈ s.callers, c.task = none) → (∀ i, s.pipeline.stepWorker? i = none) →
          (∀ w ∈ s.pipeline.workers, w.running = false) ∧
            ∀ i < settings.partitions, .did i (.perform .discard) ∈ happened) ∧
        (∀ i, .did i (.perform .discard) ∈ happened →
          ∃ before, deedsOf i happened = before ++ [.perform .discard] ∧
            .perform .discard ∉ before ∧
            before.filter Deed.isWork
              = ((sentTo i happened).takeWhile (· ≠ .shutdown)).flatMap Command.deeds ∧
            before.filterMap Deed.closed? = (settings.windows.after before).2.traces) ∧
        s.pipeline.shared.counters.get .discardedWindows
          = (((List.range settings.partitions).flatMap
              (settings.windows.dropped happened)).countP fun slot => !slot.overflowed).toUInt64 := by
  refine ⟨_, Pipeline.start_eq hsettings store, fun scripts schedule => ?_⟩
  intro s happened
  have hvalid := (Settings.check_eq_ok_iff.mp hsettings).1
  have hr : Recorded settings.windows happened s := recorded_run settings store scripts schedule
  have hsize : s.pipeline.workers.size = settings.partitions :=
    size_run_initial settings store scripts schedule
  refine ⟨fun hcrashes hasked hreturned hstuck => ?_, fun i hdiscard => ?_, ?_⟩
  · have hfresh : ∀ w ∈ (Pipeline.initial settings store).workers,
        w.running = true ∧ w.inbox = [] := by
      intro w hw
      obtain ⟨i, -, rfl⟩ := Array.mem_map.mp hw
      exact ⟨rfl, rfl⟩
    have hspreads := spreads_run _ hfresh scripts schedule hcrashes
    have hended := hspreads.ended hasked hreturned hstuck
    refine ⟨hended, fun i hi => ?_⟩
    have hw := Array.getElem?_eq_getElem (hsize ▸ hi : i < s.pipeline.workers.size)
    exact hr.discard_mem hcrashes hw (hended _ (Array.mem_of_getElem? hw))
  · obtain ⟨w, -, hstanding⟩ := hr.standing_of_mem hdiscard
    obtain ⟨-, -, before, hdeeds, hrest⟩ := hstanding.of_discard (mem_deedsOf.mpr hdiscard)
    exact ⟨before, hdeeds, hrest⟩
  · rw [← hsize, ← hr.raised_reported hvalid]
    exact discarded_run settings store scripts schedule

/-- Two callers ask for a shutdown of three workers.  The second finds the first worker ended and gives
up, the first goes on; a window is open in some worker. -/
theorem shutdown_completes_after_refusal :
    let span : Span := { traceId := "t", spanId := "a", operationHash := "f", startTime := 5 }
    let schedule : List Actor := List.replicate 8 (.caller 0)
      ++ (List.replicate 3 [.worker 0, .worker 1, .worker 2]).flatten
      ++ [.caller 1, .caller 1, .worker 0, .caller 2, .caller 2, .caller 1, .caller 1, .caller 1]
      ++ [.worker 1, .worker 2]
    ∃ p, Pipeline.start { partitions := 3 } ({} : Store) = .ok p ∧
      let s := (start p [[.ingest [span]], [.shutdown], [.shutdown]]).run schedule
      (s.callers.map fun c => c.replies.map Prod.snd)
          = [[.ok []], [.ok []], [.error .channelClosed]] ∧
        (∀ w ∈ s.pipeline.workers, w.running = false) ∧
        s.pipeline.shared.counters.get .discardedWindows = 1 := by
  intro span schedule
  have hsettings : Settings.check { partitions := 3 } = .ok () := by decide
  obtain ⟨p, hp, hcompletes⟩ := shutdown_completes hsettings ({} : Store)
  obtain rfl := Except.ok.inj (hp.symm.trans (Pipeline.start_eq hsettings _))
  refine ⟨_, hp, ?_⟩
  obtain ⟨hended, -, hcount⟩ := hcompletes [[.ingest [span]], [.shutdown], [.shutdown]] schedule
  refine ⟨by decide +kernel, ?_, hcount.trans (by decide +kernel)⟩
  refine (hended (by decide +kernel) (by decide +kernel) (by decide +kernel) fun i => ?_).1
  match i with
  | 0 => decide +kernel
  | 1 => decide +kernel
  | 2 => decide +kernel
  | i + 3 =>
    apply Pipeline.stepWorker?_of_size_le
    rw [size_run_initial]
    exact Nat.le_add_left 3 i

end System
end CallTrace
