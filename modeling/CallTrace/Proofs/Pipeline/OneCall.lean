import CallTrace.Proofs.Pipeline.Agreement
import CallTrace.Proofs.Pipeline.Forecast

/-! # A call that nobody interrupts

Where all calls have returned and all workers run (`System.Calm`), one caller begins a request
(`System.calling`).  Workers may move whenever they like.  What came to a worker in the call and what
is still to come to it stay the same together (`Caller.Serving`), so when the call has returned, each
worker got just what the request and the stream watermark of the beginning say (`Pipeline.orders`).
As all workers run, no send is refused and no report stays away, and the call does not fail
(`Caller.Step.replies_ok`).  `System.Called` says all this of a run, which gets there in
`System.Recorded.calling_run`. -/

theorem List.exists_mapM_eq_some {α β : Type} {f : α → Option β} {l : List α}
    (h : ∀ a ∈ l, (f a).isSome) : ∃ r, l.mapM f = some r := by
  induction l with
  | nil => exact ⟨[], rfl⟩
  | cons a l ih =>
    obtain ⟨b, hb⟩ := Option.isSome_iff_exists.mp (h a List.mem_cons_self)
    obtain ⟨r, hr⟩ := ih fun a' ha' => h a' (.tail _ ha')
    exact ⟨b :: r, by simp [List.mapM_cons, hb, hr]⟩

namespace CallTrace

/-! ### What a request brings a worker -/

/-- The commands that a call brings worker `i`, if `known` is the highest time announced before. -/
def Call.commands (i : Nat) (known : Timestamp) (c : Call) : List Command :=
  (c.sends.filter fun x => x.1 = i).map Prod.snd ++ match c.announcement with
    | some t => if known < t then [.advance t] else []
    | none => []

namespace Pipeline
variable {σ : Type}

/-- The commands that a request brings worker `i`, if nobody interrupts its call. -/
def orders (p : Pipeline σ) (request : Request) (i : Nat) : List Command :=
  (p.begin request).2.commands i (p.begin request).1.watermark

theorem commands_broadcast {p : Pipeline σ} {i : Nat} (hi : i < p.workers.size) (known : Timestamp)
    (command : Command) : Call.commands i known { sends := p.broadcast command } = [command] := by
  have hsome : p.broadcast command
      = (List.range p.workers.size).filterMap fun j => some (j, command) := by simp [broadcast]
  rw [Call.commands, hsome, filter_filterMap_of_nodup List.nodup_range (List.mem_range.mpr hi) (by simp)]
  rfl

theorem orders_sync (p : Pipeline σ) {i : Nat} (hi : i < p.workers.size) :
    p.orders .sync i = [.report p.nextTicket] :=
  commands_broadcast hi _ _

/-- Nothing but a shutdown tells a worker to end. -/
theorem shutdown_not_mem_orders (p : Pipeline σ) {request : Request} (h : request ≠ .shutdown)
    (i : Nat) : .shutdown ∉ p.orders request i := by
  intro hmem
  rcases List.mem_append.mp hmem with hmem | hmem
  · obtain ⟨x, hx, he⟩ := List.mem_map.mp hmem
    have htells := (p.leaves_begin request).tells x (List.mem_of_mem_filter hx)
    rw [he] at htells
    exact h htells
  · split at hmem
    · split at hmem <;> simp at hmem
    · simp at hmem

end Pipeline

/-! ### The call -/

/-- When all workers run and none is waited for, all reports are in. -/
theorem Pipeline.collectReports_of_running {σ : Type} {p : Pipeline σ} {ticket : Nat}
    (hrunning : ∀ w ∈ p.workers, w.running = true) (hready : p.isWaiting ticket = false) :
    ∃ statuses, (p.collectReports ticket).1 = .ok statuses := by
  have hin : ∀ i ∈ List.range p.workers.size, (p.report? ticket i).isSome := by
    unfold isWaiting at hready
    split at hready
    · next hnone => simpa [Option.isSome_iff_ne_none] using hnone
    · next i hi =>
      have hw := Array.getElem?_eq_getElem (List.mem_range.mp (List.mem_of_find?_eq_some hi))
      rw [hw] at hready
      simp [hrunning _ (Array.mem_of_getElem? hw)] at hready
  obtain ⟨statuses, hstatuses⟩ := List.exists_mapM_eq_some hin
  exact ⟨statuses, by simp only [collectReports, hstatuses]⟩

namespace Caller
variable {σ : Type} {c c' : Caller} {p q : Pipeline σ} {es h : List Event} {request : Request}
  {orders : Nat → List Command}

/-- As long as all workers run, no request fails. -/
theorem Step.replies_ok (hstep : Step c p es c' q) (hproper : c.Proper p.workers.size p.discard)
    (hrunning : ∀ w ∈ p.workers, w.running = true)
    (hok : ∀ x ∈ c.replies, ∃ statuses, x.2 = .ok statuses) :
    ∀ x ∈ c'.replies, ∃ statuses, x.2 = .ok statuses := by
  have hanswered : ∀ (request : Request) (statuses : List PartitionStatus),
      ∀ x ∈ (c.answered request (.ok statuses)).replies, ∃ statuses, x.2 = .ok statuses := by
    intro request statuses x hx
    rcases List.mem_append.mp hx with hx | hx
    · exact hok x hx
    · exact ⟨statuses, congrArg Prod.snd (List.mem_singleton.mp hx)⟩
  cases hstep with
  | refuse htask hended =>
    obtain ⟨w, hw, hw'⟩ := hproper.exists_running htask hrunning
    simp [hended w hw] at hw'
  | @finish request ticket =>
    cases ticket with
    | none => exact hanswered request []
    | some ticket => exact hok
  | @collect ticket htask hready =>
    obtain ⟨statuses, hstatuses⟩ := p.collectReports_of_running hrunning hready
    rw [hstatuses]
    exact hanswered .sync statuses
  | _ => exact hok

/-- How far the call of a request is: some commands came to the workers, and the rest of the `orders`
is still to come. -/
inductive Serving (n : Nat) (orders : Nat → List Command) (known : Timestamp) (h : List Event)
    (c : Caller) : Prop
  | sending {request ticket call} (htask : c.task = some (.sending request ticket call))
      (hsent : ∀ i < n, sentTo i h ++ call.commands i known = orders i)
  | returned (htask : ∀ request ticket call, c.task ≠ some (.sending request ticket call))
      (hsent : ∀ i < n, sentTo i h = orders i)

theorem Serving.sentTo_prefix {n : Nat} {known : Timestamp} (hc : c.Serving n orders known h) :
    ∀ i < n, sentTo i h <+: orders i := by
  intro i hi
  cases hc with
  | sending _ hsent => exact hsent i hi ▸ List.prefix_append ..
  | returned _ hsent => exact hsent i hi ▸ List.prefix_rfl

theorem Serving.of_task {n : Nat} {known : Timestamp} (hc : c.Serving n orders known h)
    {ticket : Option Nat} {call : Call} (htask : c.task = some (.sending request ticket call)) :
    ∀ i < n, sentTo i h ++ call.commands i known = orders i := by
  cases hc with
  | returned htask' => exact absurd htask (htask' _ _ _)
  | sending htask' hsent =>
    obtain ⟨-, -, rfl⟩ := Task.sending.inj (Option.some.inj (htask'.symm.trans htask))
    exact hsent

theorem Serving.step (hc : c.Serving p.workers.size orders p.watermark h) (hscript : c.script = [])
    (hproper : c.Proper p.workers.size p.discard) (hrunning : ∀ w ∈ p.workers, w.running = true)
    (hstep : Step c p es c' q) : c'.Serving p.workers.size orders q.watermark (h ++ es) := by
  cases hstep with
  | pause => rwa [List.append_nil]
  | begin _ hscript' => simp [hscript] at hscript'
  | send htask =>
    refine .sending rfl fun i hi => ?_
    rw [← hc.of_task htask i hi, sentTo_append, sentTo_sent, List.append_assoc]
    simp only [Call.commands, List.filter_cons]
    split <;> simp_all
  | refuse htask hended =>
    obtain ⟨w, hw, hw'⟩ := hproper.exists_running htask hrunning
    simp [hended w hw] at hw'
  | announce htask hlt =>
    refine .sending rfl fun i hi => ?_
    rw [← hc.of_task htask i hi, List.append_nil, Pipeline.commands_broadcast hi]
    simp [Call.commands, hlt]
  | @finish request ticket announcement htask hpassed =>
    have hnothing : ∀ i, Call.commands i p.watermark ⟨[], announcement⟩ = [] := by
      intro i
      cases announcement with
      | none => rfl
      | some t => simp [Call.commands, Int64.not_lt.mpr (hpassed t rfl)]
    have hsame : ∀ i < p.workers.size, sentTo i (h ++ []) = orders i := by
      intro i hi
      rw [← hc.of_task htask i hi, hnothing, List.append_nil, List.append_nil]
    cases ticket <;> exact .returned nofun hsame
  | collect htask =>
    cases hc with
    | sending htask' => simp [htask] at htask'
    | returned _ hsent => exact .returned nofun (by simpa using hsent)

/-- A caller that makes its only request, as long as all workers run. -/
structure Makes (request : Request) (orders : Nat → List Command) (h : List Event) (p : Pipeline σ)
    (c : Caller) : Prop where
  script : c.script = []
  proper : c.Proper p.workers.size p.discard
  made : c.made = [request]
  replies_ok : ∀ x ∈ c.replies, ∃ statuses, x.2 = .ok statuses
  serving : c.Serving p.workers.size orders p.watermark h

theorem Makes.step (hc : c.Makes request orders h p) (hrunning : ∀ w ∈ p.workers, w.running = true)
    (hstep : Step c p es c' q) (hsize : q.workers.size = p.workers.size)
    (hdiscard : q.discard = p.discard) : c'.Makes request orders (h ++ es) q where
  script := by
    cases hstep with
    | begin _ hscript => simp [hc.script] at hscript
    | @finish _ ticket => cases ticket <;> exact hc.script
    | _ => exact hc.script
  proper := hsize ▸ hdiscard ▸ hc.proper.step hstep
  made := by
    rcases hc.proper.made_step hstep with hmade | ⟨_, _, -, hscript, -⟩
    · exact hmade.trans hc.made
    · simp [hc.script] at hscript
  replies_ok := hstep.replies_ok hc.proper hrunning hc.replies_ok
  serving := hsize ▸ hc.serving.step hc.script hc.proper hrunning hstep

/-- When its call has returned, it has got its reply. -/
theorem Makes.replies_eq (hc : c.Makes request orders h p) (htask : c.task = none) :
    ∃ statuses, c.replies = [(request, .ok statuses)] := by
  have hmade : c.replies.map Prod.fst = [request] := by
    simpa [Caller.made, htask] using hc.made
  obtain ⟨⟨request', reply⟩, hreplies, rfl⟩ := List.map_eq_singleton_iff.mp hmade
  obtain ⟨statuses, rfl⟩ := hc.replies_ok (request', reply) (by simp [hreplies])
  exact ⟨statuses, hreplies⟩

end Caller

namespace System
variable {σ : Type} {c : WindowConfig} {h h' es : List Event} {s s' : System σ}

/-- All calls have returned, and all workers run: nobody has asked for a shutdown, and no save has
broken down together with its worker. -/
structure Calm (h : List Event) (s : System σ) : Prop where
  returned : ∀ c ∈ s.callers, c.task = none
  unasked : .shutdown ∉ s.made
  unbroken : ∀ e ∈ h, e.isCrash = false

/-- All have come to the stream watermark then, or are going to. -/
theorem Calm.announced [Repository σ] {settings : Settings} {store : σ}
    {scripts : List (List Request)} {schedule : List Actor} :
    let s := (start (Pipeline.initial settings store) scripts).run schedule
    let h := (start (Pipeline.initial settings store) scripts).history schedule
    Calm h s → (∀ w ∈ s.pipeline.workers, w.running = true) ∧ Announced h s := by
  intro s h hcalm
  have hr : Recorded settings.windows h s := recorded_run settings store scripts schedule
  have hrunning := hr.running (asked_run _ scripts schedule) hcalm.unasked hcalm.unbroken
  exact ⟨hrunning, announced_run (Pipeline.initial settings store) rfl scripts schedule hrunning⟩

/-- One caller that has just begun its only request. -/
def calling (p : Pipeline σ) (request : Request) : System σ where
  pipeline := (p.begin request).1
  callers := [{ script := [], task := some (.sending request (p.ticket? request) (p.begin request).2) }]

theorem Recorded.calling (hr : Recorded c h s) (request : Request) :
    Recorded c h (System.calling s.pipeline request) := by
  have hworkers := (s.pipeline.aside_begin request).workers
  refine ⟨?_, ?_⟩
  · rw [System.calling, hworkers]
    exact hr.worker_lt
  · rw [System.calling, hworkers]
    exact hr.standing

/-- The only caller makes its only request, and some of that has been sent. -/
def Serving (request : Request) (orders : Nat → List Command) (h : List Event) (s : System σ) : Prop :=
  ∃ c, s.callers = [c] ∧ c.Makes request orders h s.pipeline

theorem serving_calling (p : Pipeline σ) (request : Request) :
    (calling p request).Serving request (p.orders request) [] := by
  obtain ⟨hworkers, -, hdiscard, -⟩ := p.aside_begin request
  refine ⟨_, rfl, rfl, ?_, rfl, by simp, .sending rfl fun i _ => rfl⟩
  rw [calling, hworkers, hdiscard]
  exact (Caller.Proper.of_task_ne (c := { script := [request] }) (by simp)).step (.begin rfl rfl)

/-- As long as the workers get only what a request other than a shutdown brings them, they run. -/
theorem Serving.running {request : Request} {orders : Nat → List Command}
    (hs : s.Serving request orders h') (hr : Recorded c (h ++ h') s) (hopen : ∀ i, .shutdown ∉ sentTo i h)
    (horders : ∀ i, .shutdown ∉ orders i) (hcrashes : ∀ e ∈ h ++ h', e.isCrash = false) :
    ∀ w ∈ s.pipeline.workers, w.running = true := by
  obtain ⟨d, -, hmakes⟩ := hs
  refine hr.running_of_not_sent (fun i hi hmem => ?_) hcrashes
  rw [sentTo_append, List.mem_append] at hmem
  exact hmem.elim (hopen i) fun hmem => horders i ((hmakes.serving.sentTo_prefix i hi).subset hmem)

/-- What has come of a call that nobody interrupted, or is on its way. -/
structure Called (c : WindowConfig) (h h' : List Event) (p : Pipeline σ) (request : Request)
    (s : System σ) : Prop where
  recorded : Recorded c (h ++ h') s
  running : ∀ w ∈ s.pipeline.workers, w.running = true
  sent_prefix : ∀ i < p.workers.size, sentTo i h' <+: p.orders request i
  sent : (∀ c ∈ s.callers, c.task = none) → ∀ i < p.workers.size, sentTo i h' = p.orders request i
  replied : (∀ c ∈ s.callers, c.task = none) →
    ∃ statuses, s.callers.map Caller.replies = [[(request, .ok statuses)]]

variable [Repository σ]

theorem size_calling_run (p : Pipeline σ) (request : Request) (schedule : List Actor) :
    ((calling p request).run schedule).pipeline.workers.size = p.workers.size :=
  (same_run _ _).1.trans (congrArg Array.size (p.aside_begin request).workers)

theorem Serving.step {request : Request} {orders : Nat → List Command} (hs : s.Serving request orders h)
    (hrunning : ∀ w ∈ s.pipeline.workers, w.running = true) (hstep : s.Step es s') :
    s'.Serving request orders (h ++ es) := by
  obtain ⟨c, hcallers, hmakes⟩ := hs
  obtain ⟨hsize, -, hdiscard⟩ := hstep.same
  cases hstep with
  | pass => exact ⟨c, hcallers, by rwa [List.append_nil]⟩
  | @worker i w _ _ _ _ _ _ hput =>
    obtain ⟨hscript, hproper, hmade, hok, hserving⟩ := hmakes
    refine ⟨c, hcallers, hscript, hsize ▸ hdiscard ▸ hproper, hmade, hok, ?_⟩
    rw [hsize, hput.watermark]
    cases hserving with
    | sending htask hsent => exact .sending htask (by simpa using hsent)
    | returned htask hsent => exact .returned htask (by simpa using hsent)
  | @caller i d d' q _ hd hstep =>
    rw [hcallers, List.getElem?_singleton] at hd
    split at hd
    · next hi =>
      obtain rfl := Option.some.inj hd
      exact ⟨d', by rw [hcallers, hi]; rfl, hmakes.step hrunning hstep hsize hdiscard⟩
    · simp at hd

/-- When the call has returned, every worker has been told just what the request brings it, the caller
has its reply, and all workers run still. -/
theorem Recorded.calling_run (hr : Recorded c h s) (hopen : ∀ i, .shutdown ∉ sentTo i h)
    (hcrashes : ∀ e ∈ h, e.isCrash = false) {request : Request} (hrequest : request ≠ .shutdown)
    (schedule : List Actor)
    (hcrashes' : ∀ e ∈ (System.calling s.pipeline request).history schedule, e.isCrash = false) :
    let s' := (System.calling s.pipeline request).run schedule
    let h' := (System.calling s.pipeline request).history schedule
    Called c h h' s.pipeline request s' := by
  intro s' h'
  have horders := fun i => s.pipeline.shutdown_not_mem_orders hrequest i
  have hbroken : ∀ {h' : List Event}, (∀ e ∈ h', e.isCrash = false) →
      ∀ e ∈ h ++ h', e.isCrash = false := fun hcrashes' e he =>
    (List.mem_append.mp he).elim (hcrashes e) (hcrashes' e)
  obtain ⟨hr', hserving⟩ : Recorded c (h ++ h') s' ∧ ((∀ e ∈ h', e.isCrash = false) →
      s'.Serving request (s.pipeline.orders request) h') := by
    refine history_induction (I := fun h' s' => Recorded c (h ++ h') s' ∧
      ((∀ e ∈ h', e.isCrash = false) → s'.Serving request (s.pipeline.orders request) h'))
      ?_ ⟨?_, fun _ => serving_calling s.pipeline request⟩ schedule
    · rintro h' s' es s'' ⟨hr', hserving⟩ hstep
      refine ⟨List.append_assoc .. ▸ hr'.step hstep, fun hcrashes' => ?_⟩
      have hcrashes' := fun e he => hcrashes' e (List.mem_append_left _ he)
      have hserving := hserving hcrashes'
      exact hserving.step (hserving.running hr' hopen horders (hbroken hcrashes')) hstep
    · rw [List.append_nil]
      exact hr.calling request
  have hserving := hserving hcrashes'
  have hrunning := hserving.running hr' hopen horders (hbroken hcrashes')
  obtain ⟨d, hcallers, hmakes⟩ := hserving
  have hprefix := hmakes.serving.sentTo_prefix
  rw [size_calling_run] at hprefix
  refine ⟨hr', hrunning, hprefix, fun hreturned i hi => ?_, fun hreturned => ?_⟩
  · rw [← size_calling_run s.pipeline request schedule] at hi
    cases hmakes.serving with
    | sending htask => simp [hreturned d (by simp [hcallers])] at htask
    | returned _ hsent => exact hsent i hi
  · obtain ⟨statuses, hreplies⟩ := hmakes.replies_eq (hreturned d (by simp [hcallers]))
    exact ⟨statuses, by rw [hcallers, List.map_singleton, hreplies]⟩

theorem Calm.called {settings : Settings} {store : σ} {scripts : List (List Request)}
    {schedule : List Actor} :
    let s := (start (Pipeline.initial settings store) scripts).run schedule
    let h := (start (Pipeline.initial settings store) scripts).history schedule
    Calm h s → ∀ (request : Request), request ≠ .shutdown → ∀ {during : List Actor},
      let s' := (System.calling s.pipeline request).run during
      let h' := (System.calling s.pipeline request).history during
      (∀ e ∈ h', e.isCrash = false) → Called settings.windows h h' s.pipeline request s' := by
  intro s h hcalm request hrequest during s' h' hcrashes
  have hr : Recorded settings.windows h s := recorded_run settings store scripts schedule
  have ha : Asked h s := asked_run _ scripts schedule
  exact hr.calling_run (fun i => ha.shutdown_not_mem hcalm.unasked i) hcalm.unbroken hrequest during
    hcrashes

end System
end CallTrace
