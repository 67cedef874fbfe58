import CallTrace.Proofs.Pipeline.SingleSave

/-! # Reports come after earlier work

A worker answers a request for a report when it reaches it, and nothing waits to be saved then
(`Worker.Reports`).  Every request has a ticket of its own, which nobody has used before
(`System.Ticketed`).  So the reports that a caller collects were all made after its request began
(`System.answered_after`), and each worker had done by then what was sent to it before
(`Worker.Standing.done_of_reports`).

The caller gets them all, in the order of the workers, or an error (`Pipeline.collectReports_ok`).
With that a reply shows how far each worker was at some moment between the request and the reply, and
that all earlier commands were behind it (`System.reports_after_earlier_commands`). -/

namespace List
variable {α β : Type}

theorem map_eq_of_mapM_eq_some {f : α → Option β} {l : List α} {r : List β} (h : l.mapM f = some r) :
    l.map f = r.map some := by
  induction l generalizing r with
  | nil =>
    obtain rfl : [] = r := Option.some.inj h
    rfl
  | cons a l ih =>
    rw [mapM_cons] at h
    obtain ⟨b, hb, h⟩ := Option.bind_eq_some_iff.mp h
    obtain ⟨r', hr', h⟩ := Option.bind_eq_some_iff.mp h
    obtain rfl : b :: r' = r := Option.some.inj h
    rw [map_cons, map_cons, hb, ih hr']

/-- What comes before an element is longer than what the element is not in. -/
theorem prefix_of_append_cons_eq {a b c d : List α} {x : α} (h : a ++ x :: b = c ++ d) (hx : x ∉ c) :
    c <+: a := by
  rcases append_eq_append_iff.mp h with ⟨e, hc, he⟩ | ⟨e, ha, -⟩
  · cases e with
    | nil => exact ⟨[], by simp [hc]⟩
    | cons y e =>
      obtain ⟨rfl, -⟩ := cons.inj he
      exact absurd (hc ▸ mem_append_right a mem_cons_self) hx
  · exact ⟨e, ha.symm⟩

end List

namespace CallTrace

theorem Command.report_mem_deeds {c : Command} {ticket : Nat} :
    .report ticket ∈ c.deeds ↔ c = .report ticket := by
  cases c <;> simp [deeds, eq_comm]

/-- Reports are asked for by nothing but requests for them. -/
theorem Command.report_mem_flatMap_deeds {sent : List Command} {ticket : Nat} :
    .report ticket ∈ sent.flatMap deeds ↔ .report ticket ∈ sent := by
  simp [List.mem_flatMap, report_mem_deeds]

/-- A worker that answers a request for a report in its next step. -/
structure Worker.Reports (w : Worker) (ticket : Nat) : Prop where
  running : w.running = true
  closed : w.closed = []
  inbox : ∃ inbox, w.inbox = .report ticket :: inbox

/-- By then it has done all that was sent to it before the request, and has handed over all traces
that came of it. -/
theorem Worker.Standing.done_of_reports {c : WindowConfig} {sent later : List Command}
    {deeds : List Deed} {w : Worker} {ticket : Nat} (h : w.Standing c (sent ++ later) deeds)
    (hw : w.Reports ticket) (hnew : .report ticket ∉ sent) :
    sent.flatMap Command.deeds <+: deeds.filter Deed.isWork ∧ w.assembler = (c.after deeds).1 ∧
      deeds.filterMap Deed.closed? = (c.after deeds).2.traces := by
  obtain ⟨inbox, hinbox⟩ := hw.inbox
  obtain ⟨-, hwork, hassembler, hclosed⟩ := h.of_running hw.running
  rw [hw.closed, List.append_nil] at hclosed
  refine ⟨?_, hassembler, hclosed⟩
  rw [hinbox, List.flatMap_cons, List.flatMap_append] at hwork
  exact List.prefix_of_append_cons_eq (x := .report ticket) hwork fun hmem =>
    hnew (Command.report_mem_flatMap_deeds.mp hmem)

/-! ### Answers -/

/-- A step of a worker answers at most the request that it has reached. -/
theorem Worker.Step.mem_answers {σ : Type} [Repository σ] {depthLimit : Nat} {w w' : Worker}
    {s s' : Shared σ} (hrunning : w.running = true) (hstep : Step depthLimit w s w' s')
    {a : Nat × PartitionStatus} (ha : a ∈ s'.answers) :
    a ∈ s.answers ∨ w.Reports a.1 ∧ a.2 = w.status := by
  cases hstep with
  | save =>
    simp only [persist] at ha
    split at ha <;> exact .inl ha
  | report hclosed hinbox =>
    unfold Shared.answer at ha
    split at ha
    · rcases List.mem_append.mp ha with ha | ha
      · exact .inl ha
      · obtain rfl := List.mem_singleton.mp ha
        exact .inr ⟨⟨hrunning, hclosed, _, hinbox⟩, rfl⟩
    · exact .inl ha
  | _ => exact .inl ha

theorem Worker.Step.partition_eq {σ : Type} [Repository σ] {depthLimit : Nat} {w w' : Worker}
    {s s' : Shared σ} (hstep : Step depthLimit w s w' s') : w'.partition = w.partition := by
  cases hstep with
  | save =>
    rw [worker_persist]
    split <;> rfl
  | _ => rfl

namespace Pipeline
variable {σ : Type} {p q : Pipeline σ}

theorem nextTicket_stepWorker? [Repository σ] {i : Nat} (h : p.stepWorker? i = some q) :
    q.nextTicket = p.nextTicket := by
  obtain ⟨w, -, h⟩ := Option.bind_eq_some_iff.mp h
  obtain ⟨⟨w', shared⟩, -, h⟩ := Option.bind_eq_some_iff.mp h
  obtain rfl : _ = q := Option.some.inj h
  simp only [put]
  split <;> rfl

theorem mem_answers_stepWorker? [Repository σ] {i : Nat} (h : p.stepWorker? i = some q)
    {a : Nat × PartitionStatus} (ha : a ∈ q.shared.answers) :
    a ∈ p.shared.answers ∨ ∃ w, p.workers[i]? = some w ∧ w.Reports a.1 ∧ a.2 = w.status := by
  obtain ⟨w, hw, h⟩ := Option.bind_eq_some_iff.mp h
  obtain ⟨⟨w', shared⟩, hstep, h⟩ := Option.bind_eq_some_iff.mp h
  obtain ⟨hrunning, hstep⟩ := Worker.step_of_step?_eq_some hstep
  obtain rfl : _ = q := Option.some.inj h
  have ha : a ∈ shared.answers := by
    simp only [put] at ha
    split at ha <;> exact ha
  exact (hstep.mem_answers hrunning ha).imp_right fun h => ⟨w, hw, h⟩

/-- Reports are collected in the order of the workers, one from each. -/
theorem collectReports_ok {ticket : Nat} {statuses : List PartitionStatus}
    (h : (p.collectReports ticket).1 = .ok statuses) :
    statuses.map PartitionStatus.partition = List.range p.workers.size ∧
      ∀ status ∈ statuses, (ticket, status) ∈ p.shared.answers := by
  have hreports : (List.range p.workers.size).mapM (fun i => p.report? ticket i) = some statuses := by
    simp only [collectReports] at h
    split at h
    · next hr => exact hr.trans (congrArg some (Except.ok.inj h))
    · simp at h
  have hmap := List.map_eq_of_mapM_eq_some hreports
  have hreport : ∀ {i status}, p.report? ticket i = some status →
      (ticket, status) ∈ p.shared.answers ∧ status.partition = i := by
    intro i status hi
    obtain ⟨a, ha, rfl⟩ := Option.map_eq_some_iff.mp hi
    obtain ⟨htest, hmem⟩ := And.intro (List.find?_some ha) (List.mem_of_find?_eq_some ha)
    simp only [Bool.and_eq_true, decide_eq_true_eq] at htest
    exact ⟨htest.1 ▸ hmem, htest.2⟩
  constructor
  · refine List.ext_getElem? fun i => ?_
    have hi := congrArg (·[i]?) hmap
    simp only [List.getElem?_map] at hi ⊢
    cases hs : statuses[i]? with
    | none => simpa [hs] using hi
    | some status =>
      rw [hs] at hi
      obtain ⟨j, hj, hi⟩ := Option.map_eq_some_iff.mp hi
      rw [hj, ← (hreport hi).2]
      rfl
  · intro status hstatus
    have hmem : some status ∈ (List.range p.workers.size).map fun i => p.report? ticket i :=
      hmap ▸ List.mem_map_of_mem hstatus
    obtain ⟨i, -, hi⟩ := List.mem_map.mp hmem
    exact (hreport hi).1

end Pipeline

/-! ### Tickets -/

namespace Caller
variable {σ : Type} {c c' : Caller} {p q : Pipeline σ} {es : List Event}

/-- Whether a caller asks for reports only under tickets below `n`. -/
def Ticketed (n : Nat) (c : Caller) : Prop :=
  ∀ request ticket call, c.task = some (.sending request ticket call) →
    ∀ i t, (i, .report t) ∈ call.sends → t < n

/-- What is left of a call asks for no other reports than the call. -/
theorem Ticketed.next {n : Nat} (h : c.Ticketed n) {request : Request} {ticket : Option Nat}
    {call call' : Call} (htask : c.task = some (.sending request ticket call))
    (hcall : ∀ i t, (i, .report t) ∈ call'.sends → (i, .report t) ∈ call.sends) :
    Ticketed n { c with task := some (.sending request ticket call') } := by
  intro request' ticket' call'' e i t ht
  obtain ⟨-, -, rfl⟩ := Task.sending.inj (Option.some.inj e)
  exact h _ _ _ htask i t (hcall i t ht)

theorem Ticketed.of_task_ne {n : Nat}
    (h : ∀ request ticket call, c.task ≠ some (.sending request ticket call)) : c.Ticketed n :=
  fun _ _ _ e => absurd e (h _ _ _)

theorem Ticketed.mono {m n : Nat} (h : c.Ticketed m) (hle : m ≤ n) : c.Ticketed n :=
  fun _ _ _ e i t ht => Nat.lt_of_lt_of_le (h _ _ _ e i t ht) hle

theorem Step.nextTicket_le (hstep : Step c p es c' q) : p.nextTicket ≤ q.nextTicket := by
  cases hstep with
  | @begin request =>
    cases request with
    | sync => exact Nat.le_succ _
    | _ => exact Nat.le_refl _
  | @refuse _ ticket => cases ticket <;> exact Nat.le_refl _
  | _ => exact Nat.le_refl _

/-- Callers answer nothing. -/
theorem Step.mem_answers (hstep : Step c p es c' q) {a : Nat × PartitionStatus}
    (ha : a ∈ q.shared.answers) : a ∈ p.shared.answers := by
  cases hstep with
  | @begin request => cases request <;> exact ha
  | @refuse _ ticket =>
    cases ticket with
    | none => exact ha
    | some ticket => exact List.mem_of_mem_filter ha
  | collect => exact List.mem_of_mem_filter ha
  | _ => exact ha

theorem Ticketed.begin {p : Pipeline σ} {request : Request} {i t : Nat}
    (h : (i, .report t) ∈ (p.begin request).2.sends) : t < (p.begin request).1.nextTicket := by
  obtain rfl : request = .sync := (p.leaves_begin request).tells _ h
  obtain ⟨-, ht⟩ := Pipeline.mem_broadcast.mp h
  exact Command.report.inj ht ▸ Nat.lt_succ_self _

theorem Ticketed.step (h : c.Ticketed p.nextTicket) (hstep : Step c p es c' q) :
    c'.Ticketed q.nextTicket := by
  cases hstep with
  | pause => exact h
  | begin =>
    intro request ticket call e i t ht
    obtain ⟨-, -, rfl⟩ := Task.sending.inj (Option.some.inj e)
    exact Ticketed.begin ht
  | send htask => exact h.next htask fun i t ht => .tail _ ht
  | refuse => exact .of_task_ne nofun
  | announce htask => exact h.next htask fun i t ht => by simpa using (Pipeline.mem_broadcast.mp ht).2
  | @finish request ticket => cases ticket <;> exact .of_task_ne nofun
  | collect => exact .of_task_ne nofun

theorem Ticketed.lt_of_sent (h : c.Ticketed p.nextTicket) (hstep : Step c p es c' q) {i t : Nat}
    (hsent : .sent i (.report t) ∈ es) : t < p.nextTicket := by
  cases hstep with
  | send htask =>
    obtain ⟨rfl, rfl⟩ := Event.sent.inj (List.mem_singleton.mp hsent)
    exact h _ _ _ htask _ _ List.mem_cons_self
  | _ => simp at hsent

end Caller

/-! ### A caller that has asked for reports -/

namespace Caller
variable {σ : Type} {c c' : Caller} {p q : Pipeline σ} {es : List Event}

theorem Step.replies_prefix (hstep : Step c p es c' q) : c.replies <+: c'.replies := by
  cases hstep with
  | refuse => exact List.prefix_append ..
  | @finish request ticket =>
    cases ticket with
    | none => exact List.prefix_append ..
    | some ticket => exact List.prefix_rfl
  | collect => exact List.prefix_append ..
  | _ => exact List.prefix_rfl

variable {ticket : Nat} {replies : List (Request × Reply)} {P Q : List PartitionStatus → Prop}

/-- How far a caller is that has asked for reports after it got some replies. -/
inductive Asking (ticket : Nat) (replies : List (Request × Reply))
    (P : List PartitionStatus → Prop) (c : Caller) : Prop
  | sending {call} (htask : c.task = some (.sending .sync (some ticket) call))
      (hreplies : c.replies = replies)
  | waiting (htask : c.task = some (.waiting ticket)) (hreplies : c.replies = replies)
  | replied {reply} (hreplies : replies ++ [(.sync, reply)] <+: c.replies)
      (hreply : ∀ statuses, reply = .ok statuses → P statuses)

/-- Whatever a caller does after it has asked for reports, a reply is what it has collected. -/
theorem Asking.step (h : c.Asking ticket replies P) (hstep : Step c p es c' q)
    (hcollect : ∀ statuses, (p.collectReports ticket).1 = .ok statuses → P statuses) :
    c'.Asking ticket replies P := by
  cases h with
  | replied hreplies hreply => exact .replied (hreplies.trans hstep.replies_prefix) hreply
  | waiting htask hreplies =>
    cases hstep with
    | pause => exact .waiting htask hreplies
    | collect hwaiting =>
      obtain rfl := Task.waiting.inj (Option.some.inj (htask.symm.trans hwaiting))
      have hreplied : replies ++ [(.sync, (p.collectReports ticket).1)]
          <+: (c.answered .sync (p.collectReports ticket).1).replies := hreplies ▸ List.prefix_rfl
      exact .replied hreplied hcollect
    | begin hnone => simp [htask] at hnone
    | send hsending => simp [htask] at hsending
    | refuse hsending => simp [htask] at hsending
    | announce hsending => simp [htask] at hsending
    | finish hsending => simp [htask] at hsending
  | sending htask hreplies =>
    cases hstep with
    | pause => exact .sending htask hreplies
    | begin hnone => simp [htask] at hnone
    | collect hwaiting => simp [htask] at hwaiting
    | send hsending =>
      obtain ⟨rfl, rfl, -⟩ := Task.sending.inj (Option.some.inj (htask.symm.trans hsending))
      exact .sending rfl hreplies
    | announce hsending =>
      obtain ⟨rfl, rfl, -⟩ := Task.sending.inj (Option.some.inj (htask.symm.trans hsending))
      exact .sending rfl hreplies
    | finish hsending =>
      obtain ⟨rfl, rfl, -⟩ := Task.sending.inj (Option.some.inj (htask.symm.trans hsending))
      exact .waiting rfl hreplies
    | refuse hsending =>
      obtain ⟨rfl, rfl, -⟩ := Task.sending.inj (Option.some.inj (htask.symm.trans hsending))
      have hreplied : replies ++ [(.sync, .error .channelClosed)]
          <+: (c.answered .sync (.error .channelClosed)).replies := hreplies ▸ List.prefix_rfl
      exact .replied hreplied nofun

theorem Asking.mono (h : c.Asking ticket replies P) (hPQ : ∀ statuses, P statuses → Q statuses) :
    c.Asking ticket replies Q := by
  cases h with
  | sending htask hreplies => exact .sending htask hreplies
  | waiting htask hreplies => exact .waiting htask hreplies
  | replied hreplies hreply => exact .replied hreplies fun _ e => hPQ _ (hreply _ e)

theorem Asking.of_reply (h : c.Asking ticket replies P) {statuses : List PartitionStatus}
    (hstatuses : c.replies[replies.length]? = some (.sync, .ok statuses)) : P statuses := by
  cases h with
  | sending _ hreplies => simp [hreplies] at hstatuses
  | waiting _ hreplies => simp [hreplies] at hstatuses
  | @replied reply hreplies hreply =>
    obtain ⟨rest, hreplies⟩ := hreplies
    rw [← hreplies, List.append_assoc, List.getElem?_append_right (Nat.le_refl _)] at hstatuses
    exact hreply statuses (by simpa using hstatuses)

end Caller

/-! ### Schedules -/

namespace System
variable {σ : Type} {c : WindowConfig} {h : List Event} {s : System σ}

/-- A request that a worker reaches was sent to it. -/
theorem Recorded.sent_of_reports (hr : Recorded c h s) {i t : Nat} {w : Worker}
    (hw : s.pipeline.workers[i]? = some w) (hreports : w.Reports t) : .sent i (.report t) ∈ h := by
  obtain ⟨inbox, hinbox⟩ := hreports.inbox
  obtain ⟨-, hwork, -, -⟩ := (hr.standing i w hw).of_running hreports.running
  have hmem : Deed.report t ∈ (sentTo i h).flatMap Command.deeds := by
    rw [← hwork, hinbox]
    exact List.mem_append_right _ List.mem_cons_self
  exact mem_sentTo.mp (Command.report_mem_flatMap_deeds.mp hmem)

variable [Repository σ]

theorem history_append (s : System σ) (schedule schedule' : List Actor) :
    s.history (schedule ++ schedule') = s.history schedule ++ (s.run schedule).history schedule' := by
  induction schedule generalizing s with
  | nil => rfl
  | cons actor schedule ih =>
    rw [List.cons_append, history, history, ih, List.append_assoc]
    rfl

/-- Workers keep their numbers. -/
theorem partition_run (settings : Settings) (store : σ) (scripts : List (List Request))
    (schedule : List Actor) {i : Nat} {w : Worker}
    (hw : ((start (Pipeline.initial settings store) scripts).run
      schedule).pipeline.workers[i]? = some w) : w.partition = i := by
  refine history_induction (I := fun _ s => ∀ i w, s.pipeline.workers[i]? = some w →
    w.partition = i) ?_ ?_ schedule i w hw
  · -- a worker is only ever replaced by itself after a step or after a send
    intro h s es s' hs hstep i w hw
    cases hstep with
    | pass => exact hs i w hw
    | @worker j v v' shared q hv hrunning hstep hput =>
      rw [hput.workers, Array.getElem?_setIfInBounds] at hw
      split at hw
      · next hij =>
        split at hw
        · obtain rfl := Option.some.inj hw
          exact hstep.partition_eq.trans ((hs j v hv).trans hij)
        · simp at hw
      · exact hs i w hw
    | caller hc hstep =>
      rcases hstep.aside_or_sent with ⟨-, haside⟩ | ⟨j, command, v, ready, -, hv, -, rfl⟩
      · exact hs i w (haside.workers ▸ hw)
      · rw [Array.getElem?_setIfInBounds] at hw
        split at hw
        · next hij =>
          split at hw
          · obtain rfl := Option.some.inj hw
            exact (hs j v hv).trans hij
          · simp at hw
        · exact hs i w hw
  · intro i w hw
    obtain ⟨j, hj, rfl⟩ := Option.map_eq_some_iff.mp (Array.getElem?_map .. ▸ hw)
    obtain ⟨hlt, rfl⟩ := Array.getElem?_eq_some_iff.mp hj
    simp

/-- All tickets that are in use were given out. -/
structure Ticketed (h : List Event) (s : System σ) : Prop where
  sent : ∀ i t, .sent i (.report t) ∈ h → t < s.pipeline.nextTicket
  callers : ∀ c ∈ s.callers, c.Ticketed s.pipeline.nextTicket
  answers : ∀ a ∈ s.pipeline.shared.answers, a.1 < s.pipeline.nextTicket

/-- A move answers at most a request that a worker has reached. -/
theorem mem_answers_move (s : System σ) (actor : Actor) {a : Nat × PartitionStatus}
    (ha : a ∈ (s.move actor).pipeline.shared.answers) :
    a ∈ s.pipeline.shared.answers ∨
      ∃ (i : Nat) (w : Worker), s.pipeline.workers[i]? = some w ∧ w.Reports a.1 ∧ a.2 = w.status := by
  cases actor with
  | caller i =>
    simp only [move] at ha
    split at ha
    · exact .inl ha
    · next c hc => exact .inl ((c.step_spec s.pipeline).mem_answers ha)
  | worker i =>
    simp only [move] at ha
    split at ha
    · exact .inl ha
    · next q hq =>
      exact (Pipeline.mem_answers_stepWorker? hq ha).imp_right fun hreports => ⟨i, hreports⟩

/-- Every answer was there or has been made on the way, by a worker that had reached the request. -/
theorem mem_answers_run (s : System σ) (schedule : List Actor) {a : Nat × PartitionStatus}
    (ha : a ∈ (s.run schedule).pipeline.shared.answers) :
    a ∈ s.pipeline.shared.answers ∨ ∃ done, done <+: schedule ∧ ∃ (i : Nat) (w : Worker),
      (s.run done).pipeline.workers[i]? = some w ∧ w.Reports a.1 ∧ a.2 = w.status := by
  induction schedule using List.reverseRecOn with
  | nil => exact .inl ha
  | append_singleton schedule actor ih =>
    rw [run_append] at ha
    rcases mem_answers_move _ actor ha with ha | hreports
    · rcases ih ha with ha | ⟨done, hdone, hreports⟩
      · exact .inl ha
      · exact .inr ⟨done, hdone.trans (List.prefix_append ..), hreports⟩
    · exact .inr ⟨schedule, List.prefix_append .., hreports⟩

/-- A ticket that is given out in a move is not answered in it. -/
theorem Ticketed.answers_move (ht : Ticketed h s) (hr : Recorded c h s) (actor : Actor) :
    ∀ a ∈ (s.move actor).pipeline.shared.answers, a.1 < s.pipeline.nextTicket := by
  intro a ha
  rcases mem_answers_move s actor ha with ha | ⟨i, w, hw, hreports, -⟩
  · exact ht.answers a ha
  · exact ht.sent i _ (hr.sent_of_reports hw hreports)

theorem Ticketed.move (ht : Ticketed h s) (hr : Recorded c h s) (actor : Actor) :
    Ticketed (h ++ s.events actor) (s.move actor) := by
  have hanswers := ht.answers_move hr actor
  cases actor with
  | caller i =>
    cases hc : s.callers[i]? with
    | none =>
      simp only [System.move, events, hc, List.append_nil]
      exact ht
    | some c =>
      simp only [System.move, events, hc] at hanswers ⊢
      have hstep := c.step_spec s.pipeline
      have hle := hstep.nextTicket_le
      have hticketed := ht.callers c (List.mem_of_getElem? hc)
      refine ⟨fun j t hsent => ?_, fun d hd => ?_, fun a ha => Nat.lt_of_lt_of_le (hanswers a ha) hle⟩
      · refine Nat.lt_of_lt_of_le ?_ hle
        rcases List.mem_append.mp hsent with hsent | hsent
        · exact ht.sent j t hsent
        · exact hticketed.lt_of_sent hstep hsent
      · rcases List.mem_or_eq_of_mem_set hd with hd | rfl
        · exact (ht.callers d hd).mono hle
        · exact hticketed.step hstep
  | worker i =>
    have hsent : ∀ j t, .sent j (.report t) ∈ h ++ s.events (.worker i) →
        t < s.pipeline.nextTicket := by
      intro j t hsent
      rcases List.mem_append.mp hsent with hsent | hsent
      · exact ht.sent j t hsent
      · simp only [events] at hsent
        split at hsent <;> simp at hsent
    have hsame : (s.move (.worker i)).pipeline.nextTicket = s.pipeline.nextTicket ∧
        (s.move (.worker i)).callers = s.callers := by
      simp only [System.move]
      split
      · exact ⟨rfl, rfl⟩
      · next q hq => exact ⟨Pipeline.nextTicket_stepWorker? hq, rfl⟩
    exact ⟨hsame.1 ▸ hsent, hsame.1 ▸ hsame.2 ▸ ht.callers, hsame.1 ▸ hanswers⟩

theorem ticketed_run (settings : Settings) (store : σ) (scripts : List (List Request))
    (schedule : List Actor) :
    let s := start (Pipeline.initial settings store) scripts
    Ticketed (s.history schedule) (s.run schedule) := by
  intro s
  induction schedule using List.reverseRecOn with
  | nil =>
    refine ⟨by simp [history], fun c hc => ?_, by simp [s, start, run, Pipeline.initial]⟩
    obtain ⟨script, -, rfl⟩ := List.mem_map.mp hc
    exact .of_task_ne (by simp)
  | append_singleton schedule actor ih =>
    rw [history_append, run_append, history, history, List.append_nil]
    exact ih.move (recorded_run settings store scripts schedule) actor

/-- An answer under a ticket that was not given out before some move has been made after that move,
by a worker that had done by then all that was sent to it before the move. -/
theorem answered_after (settings : Settings) (store : σ) (scripts : List (List Request))
    (before : List Actor) (actor : Actor) (during : List Actor) {a : Nat × PartitionStatus} :
    let s₀ := start (Pipeline.initial settings store) scripts
    let s := s₀.run before
    s.pipeline.nextTicket ≤ a.1 → a ∈ (s.run (actor :: during)).pipeline.shared.answers →
    ∃ done, done <+: during ∧ ∃ w,
      let deeds := deedsOf a.2.partition (s₀.history (before ++ actor :: done))
      (s.run (actor :: done)).pipeline.workers[a.2.partition]? = some w ∧ a.2 = w.status ∧
      w.assembler = (settings.windows.after deeds).1 ∧
      (sentTo a.2.partition (s₀.history before)).flatMap Command.deeds
        <+: deeds.filter Deed.isWork ∧
      deeds.filterMap Deed.closed? = (settings.windows.after deeds).2.traces := by
  intro s₀ s hnew ha
  have hticketed : Ticketed (s₀.history before) s := ticketed_run settings store scripts before
  have hbefore := recorded_run settings store scripts before
  rcases mem_answers_run (s.move actor) during ha with hold | ⟨done, hdone, k, w, hw, hreports, hstatus⟩
  · exact absurd (hticketed.answers_move hbefore actor a hold) (Nat.not_lt.mpr hnew)
  · have hreported := hw
    rw [show (s.move actor).run done = s₀.run (before ++ actor :: done) from
      (run_append s₀ before (actor :: done)).symm] at hw
    obtain rfl : a.2.partition = k :=
      (congrArg PartitionStatus.partition hstatus).trans (partition_run settings store scripts _ hw)
    have hstanding := (recorded_run settings store scripts (before ++ actor :: done)).standing _ w hw
    rw [show s₀.history (before ++ actor :: done) = _ from history_append .., sentTo_append]
      at hstanding
    obtain ⟨hwork, hassembler, hclosed⟩ := hstanding.done_of_reports hreports fun hsent =>
      absurd (hticketed.sent _ _ (mem_sentTo.mp hsent)) (Nat.not_lt.mpr hnew)
    rw [← history_append] at hwork hassembler hclosed
    exact ⟨done, hdone, w, hreported, hstatus, hassembler, hwork, hclosed⟩

/-- A caller begins to ask for reports under the next ticket. -/
theorem move_begin_sync (s : System σ) {i : Nat} {c : Caller} (hc : s.callers[i]? = some c)
    (htask : c.task = none) (hscript : c.script.head? = some .sync) :
    ∃ c' call, (s.move (.caller i)).callers[i]? = some c' ∧
      c'.task = some (.sending .sync (some s.pipeline.nextTicket) call) ∧
      c'.replies = c.replies := by
  obtain ⟨script, hscript⟩ := List.head?_eq_some_iff.mp hscript
  obtain ⟨hlt, -⟩ := List.getElem?_eq_some_iff.mp hc
  have hstep : c.step s.pipeline = ({ c with
      script := script
      task := some (.sending .sync (some s.pipeline.nextTicket) (s.pipeline.begin .sync).2) },
      (s.pipeline.begin .sync).1) := by
    simp only [Caller.step, htask, hscript]
    rfl
  simp only [move, hc, hstep]
  exact ⟨_, _, List.getElem?_set_self hlt, rfl, rfl⟩

/-- A reply to a request for reports is what could be collected at some moment before. -/
theorem asking_run (s : System σ) {i ticket : Nat} {c : Caller} {call : Call}
    (hc : s.callers[i]? = some c) (htask : c.task = some (.sending .sync (some ticket) call))
    (schedule : List Actor) :
    ∃ c', (s.run schedule).callers[i]? = some c' ∧ c'.Asking ticket c.replies fun statuses =>
      ∃ done, done <+: schedule ∧
        ((s.run done).pipeline.collectReports ticket).1 = .ok statuses := by
  induction schedule using List.reverseRecOn with
  | nil => exact ⟨c, hc, .sending htask rfl⟩
  | append_singleton schedule actor ih =>
    obtain ⟨c', hc', hasking⟩ := ih
    rw [run_append]
    have hasking := hasking.mono (Q := fun statuses => ∃ done, done <+: schedule ++ [actor] ∧
        ((s.run done).pipeline.collectReports ticket).1 = .ok statuses) fun statuses ⟨done, hdone⟩ =>
      ⟨done, hdone.1.trans (List.prefix_append ..), hdone.2⟩
    show ∃ c', ((s.run schedule).move actor).callers[i]? = some c' ∧ _
    cases actor with
    | worker j =>
      refine ⟨c', ?_, hasking⟩
      simp only [move]
      split <;> exact hc'
    | caller j =>
      simp only [move]
      cases hd : (s.run schedule).callers[j]? with
      | none => exact ⟨c', hc', hasking⟩
      | some d =>
        by_cases hij : j = i
        · subst hij
          obtain rfl := Option.some.inj (hc'.symm.trans hd)
          obtain ⟨hlt, -⟩ := List.getElem?_eq_some_iff.mp hc'
          refine ⟨_, List.getElem?_set_self hlt, hasking.step (c'.step_spec _) fun statuses hok => ?_⟩
          exact ⟨schedule, List.prefix_append .., hok⟩
        · exact ⟨c', (List.getElem?_set_ne hij).trans hc', hasking⟩

/-- A caller that asks for reports and gets them has collected them at some moment in between. -/
theorem collected_of_reply (s : System σ) {i n : Nat} {during : List Actor}
    {statuses : List PartitionStatus}
    (hcaller : (s.callers[i]?.map fun c => (c.task, c.script.head?, c.replies.length))
      = some (none, some .sync, n))
    (hreply : ((s.run (.caller i :: during)).callers[i]?.bind fun c => c.replies[n]?)
      = some (.sync, .ok statuses)) :
    ∃ collected, collected <+: during ∧
      ((s.run (.caller i :: collected)).pipeline.collectReports s.pipeline.nextTicket).1
        = .ok statuses := by
  obtain ⟨c, hc, e⟩ := Option.map_eq_some_iff.mp hcaller
  obtain ⟨htask, e⟩ := Prod.mk.inj e
  obtain ⟨hscript, rfl⟩ := Prod.mk.inj e
  obtain ⟨c₁, call, hc₁, htask₁, hreplies₁⟩ := s.move_begin_sync hc htask hscript
  obtain ⟨c', hc', hasking⟩ := (s.move (.caller i)).asking_run hc₁ htask₁ during
  rw [show (s.run (.caller i :: during)).callers[i]? = some c' from hc', Option.bind_some,
    ← hreplies₁] at hreply
  exact hasking.of_reply hreply

/-- A caller that asks for reports and gets them, gets one of each worker in their order.  Each
worker made its own at some moment between the request and the reply, and it shows the watermark of
the assembler that the worker had then, how many of its slots could still emit a trace and how many
were emptied.  At that moment the worker had done all that was sent to it before the request, and
all that its assembler had emitted was reduced and handed to the repository. -/
theorem reports_after_earlier_commands {settings : Settings} (hsettings : settings.check = .ok ())
    (store : σ) :
    ∃ p, Pipeline.start settings ({ store := store } : Recorder σ) = .ok p ∧
      ∀ scripts before i during n statuses,
        let s := (start p scripts).run before
        (s.callers[i]?.map fun c => (c.task, c.script.head?, c.replies.length))
          = some (none, some .sync, n) →
        ((s.run (.caller i :: during)).callers[i]?.bind fun c => c.replies[n]?)
          = some (.sync, .ok statuses) →
        statuses.map PartitionStatus.partition = List.range settings.partitions ∧
        ∀ j < settings.partitions, ∃ done, done <+: during ∧ ∃ w,
          let reported := s.run (.caller i :: done)
          let deeds := deedsOf j ((start p scripts).history (before ++ .caller i :: done))
          reported.pipeline.workers[j]? = some w ∧
          statuses[j]? = some {
            partition := j
            watermark := w.assembler.watermark
            openWindows := w.assembler.slots.countP fun s => !s.overflowed
            overflowedWindows := w.assembler.slots.countP fun s => s.overflowed } ∧
          w.assembler = (settings.windows.after deeds).1 ∧
          (sentTo j ((start p scripts).history before)).flatMap Command.deeds
            <+: deeds.filter Deed.isWork ∧
          deeds.filterMap Deed.closed? = (settings.windows.after deeds).2.traces ∧
          ((settings.windows.after deeds).2.traces.map (Worker.reduced p.depthLimit)).Sublist
            reported.pipeline.shared.store.saves := by
  refine ⟨_, Pipeline.start_eq hsettings _, ?_⟩
  intro scripts before i during n statuses s hcaller hreply
  let s₀ := start (Pipeline.initial settings ({ store := store } : Recorder σ)) scripts
  obtain ⟨collected, hcollected, hok⟩ := collected_of_reply s hcaller hreply
  obtain ⟨hpartitions, hanswers⟩ := Pipeline.collectReports_ok hok
  have hrun : ∀ schedule, s.run schedule = s₀.run (before ++ schedule) :=
    fun schedule => (run_append s₀ before schedule).symm
  rw [hrun, size_run_initial] at hpartitions
  refine ⟨hpartitions, fun j hj => ?_⟩
  obtain ⟨status, hstatus, rfl⟩ : ∃ status, statuses[j]? = some status ∧ status.partition = j := by
    have hget := congrArg (·[j]?) hpartitions
    simp only [List.getElem?_map, List.getElem?_range hj] at hget
    exact Option.map_eq_some_iff.mp hget
  obtain ⟨done, hdone, w, hw, hreport, hassembler, hwork, hclosed⟩ := answered_after settings _ scripts
    before (.caller i) collected (Nat.le_refl _) (hanswers status (List.mem_of_getElem? hstatus))
  replace hreport : status = w.status := hreport
  have hfields : status = {
      partition := status.partition
      watermark := w.assembler.watermark
      openWindows := w.assembler.slots.countP fun s => !s.overflowed
      overflowedWindows := w.assembler.slots.countP fun s => s.overflowed } := by
    rw [hreport]
    rfl
  refine ⟨done, hdone.trans hcollected, w, hw, hstatus.trans (congrArg some hfields), hassembler,
    hwork, hclosed, ?_⟩
  -- the repository got what the worker handed over among the rest
  have hsaves := saves_run s₀ (before ++ .caller i :: done)
  rw [← hrun] at hsaves
  rw [show (s.run (.caller i :: done)).pipeline.shared.store.saves = _ from hsaves, ← hclosed,
    ← results_filter_worker]
  exact ((List.filter_sublist.filterMap _).map _).trans (List.sublist_append_right ..)

/-- A caller has told two workers of four spans and of a time that closes the window of the first, and
goes on to a later time while another caller waits for reports.  All four came to the second worker,
where the trace of the last two is beyond the limit. -/
theorem reports_after_earlier_commands_two_callers :
    let span (traceId spanId : String) (time : Timestamp) : Span :=
      { traceId := traceId, spanId := spanId, parentSpanId := spanId, operationHash := "f",
        startTime := time }
    let spans := [span "t" "a" 5, span "v" "a" 10005, span "b" "a" 10006, span "b" "b" 10007]
    let scripts : List (List Request) :=
      [[.ingest spans, .advance 12000, .advance 70000], [.sync]]
    let before : List Actor := List.replicate 10 (.caller 0)
    let during : List Actor :=
      (List.replicate 12 [.caller 1, .worker 0, .caller 0, .worker 1]).flatten
    let statuses : List PartitionStatus := [⟨0, some 12000, 0, 0⟩, ⟨1, some 12000, 1, 1⟩]
    ∃ p, Pipeline.start { maxRecordSize := 500, partitions := 2 }
        ({ store := {} } : Recorder Store) = .ok p ∧
      let s := (start p scripts).run before
      ((s.run (.caller 1 :: during)).callers[1]?.bind fun c => c.replies[0]?)
        = some (.sync, .ok statuses) ∧
      ∃ done, done <+: during ∧
        let deeds := deedsOf 1 ((start p scripts).history (before ++ .caller 1 :: done))
        let a := (WindowConfig.after { maxRecordSize := 500 } deeds).1
        (a.watermark = some 12000 ∧ (a.slots.countP fun s => !s.overflowed) = 1 ∧
          (a.slots.countP fun s => s.overflowed) = 1) ∧
        (sentTo 1 ((start p scripts).history before)).flatMap Command.deeds
          = (spans.map fun x => .perform (.push x))
            ++ [.perform (.advance 10007), .perform (.advance 12000)] ∧
        (sentTo 1 ((start p scripts).history before)).flatMap Command.deeds
          <+: deeds.filter Deed.isWork ∧
        deeds.filterMap Deed.closed? = (WindowConfig.after { maxRecordSize := 500 } deeds).2.traces := by
  intro span spans scripts before during statuses
  have hsettings : Settings.check { maxRecordSize := 500, partitions := 2 } = .ok () := by decide
  obtain ⟨p, hp, hreports⟩ := reports_after_earlier_commands hsettings ({} : Store)
  refine ⟨p, hp, ?_⟩
  obtain rfl := Except.ok.inj (hp.symm.trans (Pipeline.start_eq hsettings _))
  have hreply : ((((start (Pipeline.initial { maxRecordSize := 500, partitions := 2 }
      ({ store := {} } : Recorder Store)) scripts).run before).run
        (.caller 1 :: during)).callers[1]?.bind fun c => c.replies[0]?)
      = some (.sync, .ok statuses) := by
    decide +kernel
  obtain ⟨-, hworkers⟩ := hreports scripts before 1 during 0 statuses (by decide +kernel) hreply
  obtain ⟨done, hdone, w, -, hstatus, hassembler, hwork, hclosed, -⟩ := hworkers 1 (by decide)
  obtain ⟨-, hwatermark, hopen, hoverflowed⟩ := PartitionStatus.mk.inj (Option.some.inj hstatus)
  rw [hassembler] at hwatermark hopen hoverflowed
  exact ⟨hreply, done, hdone, ⟨hwatermark.symm, hopen.symm, hoverflowed.symm⟩, by decide +kernel,
    hwork, hclosed⟩

end System
end CallTrace
