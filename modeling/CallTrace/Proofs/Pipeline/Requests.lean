import CallTrace.Proofs.Pipeline.History

/-! # What callers ask for

Whatever a call still has to send or to announce comes from its request (`Request.Leaves`): spans go
to the worker of their key, times are those of the request, and nothing but a shutdown tells workers
to end.  What is left of a shutdown is a rest of the row of all workers.

So each command that has come into an inbox was asked for by somebody (`System.Asked`), whatever the
schedule is (`System.asked_run`). -/

namespace CallTrace

namespace Request

/-- The times that a request makes known.  Spans that are only counted tell no time. -/
def times (discard : Bool) : Request → List Timestamp
  | .ingest spans => if discard then [] else spans.map Span.startTime
  | .advance t => [t]
  | .sync => []
  | .shutdown => []

/-- Whether a request may tell something to worker `i` of `n`. -/
def Tells (n : Nat) (discard : Bool) (request : Request) (i : Nat) : Command → Prop
  | .ingest spans =>
      ∀ x ∈ spans, partitionOf x.windowKey n = i ∧ x.startTime ∈ request.times discard
  | .advance t => t ∈ request.times discard
  | .report _ => request = .sync
  | .shutdown => request = .shutdown

/-- A call is what is left to do of a request. -/
structure Leaves (n : Nat) (discard : Bool) (request : Request) (call : Call) : Prop where
  worker_lt : ∀ x ∈ call.sends, x.1 < n
  tells : ∀ x ∈ call.sends, request.Tells n discard x.1 x.2
  announcement : ∀ t ∈ call.announcement, t ∈ request.times discard
  shutdown : request = .shutdown →
    ∃ k, call = ⟨((List.range n).map fun i => (i, .shutdown)).drop k, none⟩

end Request

namespace Pipeline
variable {σ : Type} {p : Pipeline σ}

theorem mem_broadcast {x : Nat × Command} {command : Command} :
    x ∈ p.broadcast command ↔ x.1 < p.workers.size ∧ x.2 = command := by
  simp only [broadcast, List.mem_map, List.mem_range]
  constructor
  · rintro ⟨i, hi, rfl⟩
    exact ⟨hi, rfl⟩
  · rintro ⟨hi, rfl⟩
    exact ⟨x.1, hi, rfl⟩

theorem leaves_broadcast {request : Request} {command : Command} {discard : Bool}
    (htells : ∀ i, request.Tells p.workers.size discard i command) (hshutdown : request ≠ .shutdown) :
    request.Leaves p.workers.size discard { sends := p.broadcast command } where
  worker_lt _ hx := (mem_broadcast.mp hx).1
  tells _ hx := (mem_broadcast.mp hx).2 ▸ htells _
  announcement := by simp
  shutdown h := absurd h hshutdown

theorem leaves_begin (p : Pipeline σ) (request : Request) :
    request.Leaves p.workers.size p.discard (p.begin request).2 := by
  cases request with
  | advance t => exact leaves_broadcast (fun _ => by simp [Request.Tells, Request.times]) (by simp)
  | sync => exact leaves_broadcast (fun _ => rfl) (by simp)
  | shutdown =>
    exact ⟨fun _ hx => (mem_broadcast.mp hx).1,
      fun _ hx => (mem_broadcast.mp hx).2 ▸ (rfl : Request.shutdown = .shutdown), nofun,
      fun _ => ⟨0, rfl⟩⟩
  | ingest spans =>
    cases hdiscard : p.discard with
    | true => simpa [begin, hdiscard] using ⟨by simp, by simp, by simp, by simp⟩
    | false =>
      have hbegin : (p.begin (.ingest spans)).2 = p.routing (spans.map (Span.signed p.digest)) := by
        simp [begin, hdiscard]
      have htimes : ∀ x ∈ spans.map (Span.signed p.digest),
          x.startTime ∈ Request.times false (.ingest spans) := by
        simp only [List.mem_map, Request.times]
        rintro _ ⟨x, hx, rfl⟩
        exact x.startTime_signed p.digest ▸ List.mem_map_of_mem hx
      have hbatch : ∀ x ∈ (p.routing (spans.map (Span.signed p.digest))).sends,
          x.1 < p.workers.size ∧ Request.Tells p.workers.size false (.ingest spans) x.1 x.2 := by
        intro x hx
        obtain ⟨i, hi, hx⟩ := List.mem_filterMap.mp hx
        split at hx
        · simp at hx
        · obtain rfl := Option.some.inj hx
          refine ⟨List.mem_range.mp hi, fun y hy => ?_⟩
          obtain ⟨⟨j, z⟩, hz, rfl⟩ := List.mem_map.mp hy
          simp only [List.mem_filter, List.mem_map, Prod.mk.injEq, decide_eq_true_iff] at hz
          obtain ⟨⟨s, hs, rfl, rfl⟩, rfl⟩ := hz
          exact ⟨rfl, htimes _ (List.mem_map.mpr hs)⟩
      rw [hbegin]
      refine ⟨fun x hx => (hbatch x hx).1, fun x hx => (hbatch x hx).2, ?_, by simp⟩
      intro t ht
      obtain ⟨x, hx, rfl⟩ := List.mem_map.mp (List.max?_mem ht)
      exact htimes x hx

end Pipeline

namespace Request.Leaves
variable {n : Nat} {discard : Bool} {request : Request}

/-- A command has been sent. -/
theorem tail {x : Nat × Command} {sends : List (Nat × Command)} {announcement : Option Timestamp}
    (h : request.Leaves n discard ⟨x :: sends, announcement⟩) :
    request.Leaves n discard ⟨sends, announcement⟩ where
  worker_lt y hy := h.worker_lt y (.tail _ hy)
  tells y hy := h.tells y (.tail _ hy)
  announcement := h.announcement
  shutdown hrequest := by
    obtain ⟨k, hk⟩ := h.shutdown hrequest
    simp only [Call.mk.injEq] at hk
    exact ⟨k + 1, by rw [← List.tail_drop, ← hk.1, hk.2]; rfl⟩

/-- A time has been announced, and all workers are told. -/
theorem announced {σ : Type} {p : Pipeline σ} {t : Timestamp}
    (h : request.Leaves p.workers.size discard ⟨[], some t⟩) :
    request.Leaves p.workers.size discard ⟨p.broadcast (.advance t), none⟩ := by
  refine Pipeline.leaves_broadcast (fun _ => h.announcement t rfl) fun hrequest => ?_
  obtain ⟨k, hk⟩ := h.shutdown hrequest
  simp at hk

end Request.Leaves

/-! ### Callers -/

namespace Caller
variable {σ : Type} {c c' : Caller} {p q : Pipeline σ} {es : List Event} {n : Nat} {discard : Bool}

/-- The requests that a caller has begun. -/
def made (c : Caller) : List Request :=
  c.replies.map Prod.fst ++ match c.task with
    | none => []
    | some (.sending request _ _) => [request]
    | some (.waiting _) => [.sync]

/-- Whether what a caller is in the middle of comes from its request. -/
structure Proper (n : Nat) (discard : Bool) (c : Caller) : Prop where
  leaves : ∀ request ticket call, c.task = some (.sending request ticket call) →
    request.Leaves n discard call
  sync : ∀ request ticket call, c.task = some (.sending request (some ticket) call) →
    request = .sync

theorem Proper.of_task_ne (h : ∀ request ticket call, c.task ≠ some (.sending request ticket call)) :
    c.Proper n discard :=
  ⟨fun _ _ _ e => absurd e (h _ _ _), fun _ _ _ e => absurd e (h _ _ _)⟩

theorem Proper.next {request : Request} {ticket : Option Nat} {call call' : Call}
    (h : c.Proper n discard) (htask : c.task = some (.sending request ticket call))
    (hcall : request.Leaves n discard call → request.Leaves n discard call') :
    Proper n discard { c with task := some (.sending request ticket call') } where
  leaves request' ticket' call'' e := by
    simp only [Option.some.injEq, Task.sending.injEq] at e
    obtain ⟨rfl, rfl, rfl⟩ := e
    exact hcall (h.leaves _ _ _ htask)
  sync request' ticket' call'' e := by
    simp only [Option.some.injEq, Task.sending.injEq] at e
    obtain ⟨rfl, rfl, rfl⟩ := e
    exact h.sync _ _ _ htask

theorem Proper.step (h : c.Proper p.workers.size p.discard) (hstep : Step c p es c' q) :
    c'.Proper p.workers.size p.discard := by
  cases hstep with
  | pause => exact h
  | @begin request _ htask =>
    refine ⟨?_, ?_⟩
    · intro request' ticket' call' e
      simp only [Option.some.injEq, Task.sending.injEq] at e
      obtain ⟨rfl, rfl, rfl⟩ := e
      exact p.leaves_begin _
    · intro request' ticket' call' e
      simp only [Option.some.injEq, Task.sending.injEq] at e
      obtain ⟨rfl, hticket, rfl⟩ := e
      cases request <;> simp_all [Pipeline.ticket?]
  | send htask => exact h.next htask .tail
  | refuse => exact .of_task_ne nofun
  | announce htask => exact h.next htask .announced
  | @finish request ticket announcement htask =>
    cases ticket <;> exact .of_task_ne nofun
  | collect => exact .of_task_ne nofun

/-- A step begins a request or leaves those that were begun. -/
theorem Proper.made_step (h : c.Proper n discard) (hstep : Step c p es c' q) :
    c'.made = c.made ∨ ∃ request script, c.task = none ∧ c.script = request :: script ∧
      c' = { c with
        script := script
        task := some (.sending request (p.ticket? request) (p.begin request).2) } ∧
      q = (p.begin request).1 := by
  cases hstep with
  | pause => exact .inl rfl
  | begin htask hscript => exact .inr ⟨_, _, htask, hscript, rfl, rfl⟩
  | send htask => simp [made, htask]
  | refuse htask => simp [made, htask, answered]
  | announce htask => simp [made, htask]
  | @finish request ticket announcement htask =>
    cases ticket with
    | none => simp [made, htask, finished, answered]
    | some ticket =>
      obtain rfl := h.sync _ _ _ htask
      simp [made, htask, finished]
  | collect htask => simp [made, htask, answered]

/-- What a caller sends is what its request tells. -/
theorem Proper.tells_of_sent (h : c.Proper n discard) (hstep : Step c p es c' q) {i : Nat}
    {command : Command} (hsent : .sent i command ∈ es) :
    ∃ request ∈ c.made, request.Tells n discard i command := by
  cases hstep with
  | send htask =>
    obtain ⟨rfl, rfl⟩ := Event.sent.inj (List.mem_singleton.mp hsent)
    exact ⟨_, by simp [made, htask], (h.leaves _ _ _ htask).tells _ List.mem_cons_self⟩
  | _ => simp at hsent

end Caller

/-! ### Schedules -/

theorem exists_mem_set {α : Type} {l : List α} {i : Nat} {x y : α} {P : α → Prop}
    (hx : l[i]? = some x) (hxy : P x → P y) (h : ∃ a ∈ l, P a) : ∃ a ∈ l.set i y, P a := by
  obtain ⟨a, ha, hP⟩ := h
  obtain ⟨j, hj⟩ := List.mem_iff_getElem?.mp ha
  obtain ⟨hlt, -⟩ := List.getElem?_eq_some_iff.mp hx
  by_cases hij : i = j
  · subst hij
    obtain rfl := Option.some.inj (hx.symm.trans hj)
    exact ⟨y, List.mem_set hlt y, hxy hP⟩
  · exact ⟨a, List.mem_of_getElem? ((List.getElem?_set_ne hij).trans hj), hP⟩

namespace System
variable {σ : Type} {c : WindowConfig} {h es : List Event} {s s' : System σ}

/-- The requests that have begun. -/
def made (s : System σ) : List Request := s.callers.flatMap Caller.made

theorem mem_made {request : Request} :
    request ∈ s.made ↔ ∃ c ∈ s.callers, request ∈ c.made := List.mem_flatMap

/-- Every call that is in the middle of something comes from its request, and so does every command
that was sent. -/
structure Asked (h : List Event) (s : System σ) : Prop where
  proper : ∀ c ∈ s.callers, c.Proper s.pipeline.workers.size s.pipeline.discard
  sent : ∀ i command, .sent i command ∈ h → ∃ request ∈ s.made,
    request.Tells s.pipeline.workers.size s.pipeline.discard i command

theorem asked_start (p : Pipeline σ) (scripts : List (List Request)) :
    Asked [] (start p scripts) where
  proper c hc := by
    obtain ⟨script, -, rfl⟩ := List.mem_map.mp hc
    exact .of_task_ne nofun
  sent := by simp

/-- Nothing but a shutdown that was sent to it and a save that breaks down ends a worker. -/
theorem Recorded.running_of_not_sent (hr : Recorded c h s)
    (hsent : ∀ i < s.pipeline.workers.size, .shutdown ∉ sentTo i h)
    (hcrashes : ∀ e ∈ h, e.isCrash = false) : ∀ w ∈ s.pipeline.workers, w.running = true := by
  intro w hw
  obtain ⟨i, hlt, rfl⟩ := Array.mem_iff_getElem.mp hw
  have hw := Array.getElem?_eq_getElem hlt
  refine Bool.of_not_eq_false fun hended => hsent i hlt ?_
  have hdiscard := hr.discard_mem hcrashes hw hended
  obtain ⟨-, hsent, -⟩ := (hr.standing i _ hw).of_discard (mem_deedsOf.mpr hdiscard)
  exact hsent

/-- No shutdown was sent that nobody asked for. -/
theorem Asked.shutdown_not_mem (ha : Asked h s) (hasked : .shutdown ∉ s.made) (i : Nat) :
    .shutdown ∉ sentTo i h := by
  intro hsent
  obtain ⟨request, hrequest, htells⟩ := ha.sent i .shutdown (mem_sentTo.mp hsent)
  exact hasked (htells ▸ hrequest)

theorem Recorded.running (hr : Recorded c h s) (ha : Asked h s) (hasked : .shutdown ∉ s.made)
    (hcrashes : ∀ e ∈ h, e.isCrash = false) : ∀ w ∈ s.pipeline.workers, w.running = true :=
  hr.running_of_not_sent (fun i _ => ha.shutdown_not_mem hasked i) hcrashes

variable [Repository σ]

theorem Asked.made_subset (hs : Asked h s) (hstep : s.Step es s') {request : Request}
    (hmade : request ∈ s.made) : request ∈ s'.made := by
  cases hstep with
  | pass => exact hmade
  | worker => exact hmade
  | @caller i c c' q _ hc hstep =>
    refine mem_made.mpr (exists_mem_set hc (fun hmem => ?_) (mem_made.mp hmade))
    rcases (hs.proper c (List.mem_of_getElem? hc)).made_step hstep with
      e | ⟨request, script, htask, -, rfl, -⟩
    · exact e ▸ hmem
    · simpa [Caller.made, htask] using .inl (by simpa [Caller.made, htask] using hmem)

theorem Asked.step (hs : Asked h s) (hstep : s.Step es s') : Asked (h ++ es) s' := by
  obtain ⟨hsize, -, hdiscard⟩ := hstep.same
  refine ⟨?_, ?_⟩
  · rw [hsize, hdiscard]
    cases hstep with
    | pass => exact hs.proper
    | worker => exact hs.proper
    | caller hc hstep =>
      intro d hd
      rcases List.mem_or_eq_of_mem_set hd with hd | rfl
      · exact hs.proper d hd
      · exact (hs.proper _ (List.mem_of_getElem? hc)).step hstep
  · intro i command hsent
    rw [hsize, hdiscard]
    have hmade : ∃ request ∈ s.made,
        request.Tells s.pipeline.workers.size s.pipeline.discard i command := by
      rcases List.mem_append.mp hsent with hsent | hsent
      · exact hs.sent i command hsent
      · cases hstep with
        | pass => simp at hsent
        | worker => simp at hsent
        | caller hc hstep =>
          have hc := List.mem_of_getElem? hc
          obtain ⟨request, hrequest, htells⟩ := (hs.proper _ hc).tells_of_sent hstep hsent
          exact ⟨request, mem_made.mpr ⟨_, hc, hrequest⟩, htells⟩
    obtain ⟨request, hrequest, htells⟩ := hmade
    exact ⟨request, hs.made_subset hstep hrequest, htells⟩

/-- Whatever the schedule is, nothing is sent that nobody asked for. -/
theorem asked_run (p : Pipeline σ) (scripts : List (List Request)) (schedule : List Actor) :
    Asked ((start p scripts).history schedule) ((start p scripts).run schedule) :=
  history_induction (fun _ _ _ _ hs hstep => hs.step hstep) (asked_start p scripts) schedule

end System
end CallTrace
