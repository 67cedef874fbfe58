import CallTrace.Proofs.Pipeline.Accounts
import CallTrace.Proofs.Pipeline.OneCall
import CallTrace.Proofs.Window.Lateness

/-! # Late spans of a batch

A batch is told to the workers before the stream watermark moves on.  But a worker takes its share of
the batch span by span, and each of them moves the time of its own assembler on.  So when everybody
was at rest before the call, a worker drops the spans whose windows were closed under the stream
watermark, and besides them those whose windows the start of an earlier span of its share has closed
(`System.late_in_batch`).  Which these are depends on the order of the batch and on the number of
workers, unless there are none of the second kind. -/

namespace CallTrace

theorem Command.filterMap_operation?_deeds (command : Command) :
    command.deeds.filterMap Deed.operation? = command.operations := by
  cases command with
  | ingest spans =>
    rw [deeds, List.filterMap_map, operations, ← List.filterMap_eq_map]
    rfl
  | _ => rfl

/-- A worker with an empty inbox has performed all operations that were sent to it. -/
theorem Worker.Standing.operations_eq {c : WindowConfig} {sent : List Command} {deeds : List Deed}
    {w : Worker} (h : w.Standing c sent deeds) (hrunning : w.running = true) (hinbox : w.inbox = []) :
    deeds.filterMap Deed.operation? = sent.flatMap Command.operations := by
  obtain ⟨-, hwork, -⟩ := h.of_running hrunning
  rw [hinbox, List.flatMap_nil, List.append_nil] at hwork
  rw [← Deed.filterMap_filter_isWork (fun _ _ => rfl), hwork, List.filterMap_flatMap]
  exact List.flatMap_congr fun command _ => command.filterMap_operation?_deeds

/-! ### What a batch brings a worker -/

namespace Pipeline
variable {σ : Type}

/-- The spans of a batch as they are routed; none if they are only counted. -/
def batch (p : Pipeline σ) (spans : List Span) : List Span :=
  if p.discard then [] else spans.map (Span.signed p.digest)

/-- The part of a batch that goes to worker `i`. -/
def share (p : Pipeline σ) (spans : List Span) (i : Nat) : List Span :=
  (p.batch spans).filter fun x => partitionOf x.windowKey p.workers.size = i

theorem sends_routing (p : Pipeline σ) (spans : List Span) :
    let batch (i : Nat) := spans.filter fun x => partitionOf x.windowKey p.workers.size = i
    (p.routing spans).sends = (List.range p.workers.size).filterMap fun i =>
      if (batch i).isEmpty then none else some (i, .ingest (batch i)) := by
  have hbatch : ∀ i, ((spans.map fun x => (partitionOf x.windowKey p.workers.size, x)).filter
      fun r => r.1 = i).map (·.2) = spans.filter fun x => partitionOf x.windowKey p.workers.size = i := by
    intro i
    rw [List.filter_map, List.map_map]
    exact List.map_id _
  simp only [routing, hbatch]

/-- A worker gets its share of a batch, and perhaps a time after it. -/
theorem operations_orders (p : Pipeline σ) (spans : List Span) {i : Nat} (hi : i < p.workers.size) :
    ∃ times : List Timestamp, (p.orders (.ingest spans) i).flatMap Command.operations
      = (p.share spans i).map .push ++ times.map .advance := by
  cases hdiscard : p.discard with
  | true => exact ⟨[], by simp [orders, begin, share, batch, hdiscard, Call.commands]⟩
  | false =>
    have hbegin : (p.begin (.ingest spans)).2 = p.routing (p.batch spans) := by
      simp [begin, batch, hdiscard]
    have hsent : (((p.routing (p.batch spans)).sends.filter fun x => x.1 = i).map Prod.snd).flatMap
        Command.operations = (p.share spans i).map .push := by
      rw [sends_routing, filter_filterMap_of_nodup List.nodup_range (List.mem_range.mpr hi) (by grind)]
      split
      · next hnone => simp [share, List.isEmpty_iff.mp hnone]
      · simp [share, Command.operations]
    rw [orders, hbegin, Call.commands, List.flatMap_append, hsent]
    split
    · next t _ =>
      split
      · exact ⟨[t], rfl⟩
      · exact ⟨[], rfl⟩
    · exact ⟨[], rfl⟩

end Pipeline

/-! ### What becomes of it -/

/-- The spans that worker `i` has dropped as late. -/
def WindowConfig.late (c : WindowConfig) (h : List Event) (i : Nat) : List Span :=
  ({ config := c } : Assembler).lateSpans ((deedsOf i h).filterMap Deed.operation?)

theorem Assembler.lateSpans_map_advance (a : Assembler) (times : List Timestamp) :
    a.lateSpans (times.map .advance) = [] := by
  induction times generalizing a with
  | nil => rfl
  | cons t times ih => exact ih _

/-- A worker that was at rest, got a share of a batch and perhaps some times, and is at rest again, has
dropped since then what is late of that share. -/
theorem Worker.Standing.late_eq {c : WindowConfig} (hc : c.Valid) {h h' : List Event} {i : Nat}
    {w w' : Worker} {share : List Span} {times : List Timestamp}
    (hw : w.Standing c (sentTo i h) (deedsOf i h)) (hrunning : w.running = true)
    (hinbox : w.inbox = [])
    (hw' : w'.Standing c (sentTo i (h ++ h')) (deedsOf i (h ++ h'))) (hrunning' : w'.running = true)
    (hinbox' : w'.inbox = [])
    (hsent : (sentTo i h').flatMap Command.operations = share.map .push ++ times.map .advance) :
    c.late (h ++ h') i = c.late h i ++ c.overtaken w.assembler.time share := by
  obtain ⟨-, -, hassembler, -⟩ := hw.of_running hrunning
  have hsound := hc.sound_after (deedsOf i h)
  have hsettled := hc.settled_after (deedsOf i h)
  have hbatch : (c.after (deedsOf i h)).1.lateSpans (share.map .push ++ times.map .advance)
      = c.overtaken w.assembler.time share := by
    rw [Assembler.lateSpans_append, Assembler.lateSpans_map_advance, List.append_nil,
      Assembler.lateSpans_map_push hsound hsettled, hc.config_after, hassembler]
  rw [WindowConfig.late, hw'.operations_eq hrunning' hinbox', sentTo_append, List.flatMap_append, hsent,
    ← hw.operations_eq hrunning hinbox, Assembler.lateSpans_append]
  exact congrArg _ hbatch

namespace System
variable {σ : Type} {c : WindowConfig} {h : List Event} {s : System σ}

/-- What is accounted for as late are the spans that workers have dropped. -/
theorem account_late (hc : c.Valid) : account c h s .lateSpans
    = ((List.range s.pipeline.workers.size).flatMap (c.late h)).length := by
  rw [account_of_reported rfl, reported, ← List.countP_true]
  refine Counters.raised_flatMap_eq_countP fun i _ => ?_
  rw [List.countP_true]
  exact Assembler.raised_run_late (Assembler.sound_new hc) (Assembler.settled_new c) _

variable [Repository σ]

/-- What a counter of the workers is to show it shows after a further call too. -/
theorem Recorded.counted_calling (hr : Recorded c h s) {k : Counter} (hk : k ≠ .receivedSpans)
    (hcount : s.pipeline.shared.counters.get k = (account c h s k).toUInt64) (request : Request)
    (during : List Actor) :
    let s' := System.calling s.pipeline request
    (s'.run during).pipeline.shared.counters.get k
      = (account c (h ++ s'.history during) (s'.run during) k).toUInt64 := by
  have haside := s.pipeline.aside_begin request
  have hbegun : (s.pipeline.begin request).1.shared.counters.get k
      = s.pipeline.shared.counters.get k :=
    (Caller.Step.begin (c := { script := [request] }) rfl rfl).get_counters hk
  refine (hr.calling request).counted_run hk ?_ during
  rw [account, reported, System.calling, haside.depthLimit, haside.workers, hbegun]
  exact hcount

/-- Each worker has dropped what is late of its share, if everybody was at rest before the call. -/
theorem Calm.late_ingest {settings : Settings} (hvalid : settings.windows.Valid) {store : σ}
    {scripts : List (List Request)} {schedule : List Actor} :
    let s := (start (Pipeline.initial settings store) scripts).run schedule
    let h := (start (Pipeline.initial settings store) scripts).history schedule
    Calm h s → (∀ w ∈ s.pipeline.workers, w.inbox = []) →
    ∀ {spans : List Span} {during : List Actor},
      let s' := (calling s.pipeline (.ingest spans)).run during
      let h' := (calling s.pipeline (.ingest spans)).history during
      s'.Drained → (∀ e ∈ h', e.isCrash = false) → ∀ {i : Nat}, i < s.pipeline.workers.size →
      settings.windows.late (h ++ h') i = settings.windows.late h i
        ++ settings.windows.overtaken s.pipeline.watermark (s.pipeline.share spans i) := by
  intro s h hcalm hrest spans during s' h' hdrained hcrashes i hi
  have hr : Recorded settings.windows h s := recorded_run settings store scripts schedule
  have ha : Asked h s := asked_run _ scripts schedule
  obtain ⟨hrunning, hannounced⟩ := hcalm.announced
  have hcalled := hcalm.called (.ingest spans) (by simp) hcrashes
  have hsize := size_calling_run s.pipeline (.ingest spans) during
  have hw := Array.getElem?_eq_getElem hi
  have hw' := Array.getElem?_eq_getElem (hsize ▸ hi : i < s'.pipeline.workers.size)
  have hmem := Array.mem_of_getElem? hw
  have hmem' := Array.mem_of_getElem? hw'
  have hidle := hdrained.2 _ hmem'
  simp only [Worker.idle, Bool.and_eq_true, List.isEmpty_iff] at hidle
  obtain ⟨times, horders⟩ := s.pipeline.operations_orders spans hi
  rw [← hcalled.sent (fun c hc => (hdrained.1 c hc).1) i hi] at horders
  have htime : s.pipeline.workers[i].assembler.time = s.pipeline.watermark := by
    rw [Assembler.time, (hr.standing i _ hw).watermark_eq hvalid (hrunning _ hmem) (hrest _ hmem)]
    exact hannounced.getD_max?_sent ha hcalm.returned hi
  rw [← htime]
  exact (hr.standing i _ hw).late_eq hvalid (hrunning _ hmem) (hrest _ hmem)
    (hcalled.recorded.standing i _ hw') (hcalled.running _ hmem') hidle.2 horders

/-- One caller brings a batch when everybody is at rest, and goes on until everybody is again.  Then
each worker has dropped as late those spans of its share whose windows were closed before the call or
by an earlier span of the share, and that many are counted.  They are those whose windows were closed
before the call if and only if in no share a span closes the window of a later one that was open.
Then neither the order of the batch nor the number of workers matters for what is dropped. -/
theorem late_in_batch {settings : Settings} (hsettings : settings.check = .ok ()) (store : σ) :
    ∃ p, Pipeline.start settings store = .ok p ∧
      ∀ (scripts : List (List Request)) (schedule : List Actor),
        let s := (start p scripts).run schedule
        let h := (start p scripts).history schedule
        Calm h s → (∀ w ∈ s.pipeline.workers, w.inbox = []) →
        ∀ (spans : List Span) (during : List Actor),
          let s' := (calling s.pipeline (.ingest spans)).run during
          let h' := (calling s.pipeline (.ingest spans)).history during
          s'.Drained → (∀ e ∈ h', e.isCrash = false) →
          let c := settings.windows
          let workers := List.range settings.partitions
          let share := s.pipeline.share spans
          let dropped := fun i => c.overtaken s.pipeline.watermark (share i)
          let before : Span → Bool := fun x =>
            c.phase s.pipeline.streamWatermark (c.windowOf x.startTime) = .closed
          let undisturbed := ∀ i ∈ workers, (share i).Pairwise fun x y =>
            c.closes x.startTime y = true → before y = true
          (∀ i ∈ workers, c.late (h ++ h') i = c.late h i ++ dropped i) ∧
          s'.pipeline.shared.counters.get .lateSpans = s.pipeline.shared.counters.get .lateSpans
            + (workers.flatMap dropped).length.toUInt64 ∧
          ((∀ i ∈ workers, ∀ x ∈ dropped i, before x = true) ↔ undisturbed) ∧
          (undisturbed → (workers.flatMap dropped).Perm ((s.pipeline.batch spans).filter before)) := by
  refine ⟨_, Pipeline.start_eq hsettings store, ?_⟩
  intro scripts schedule s h hcalm hrest spans during s' h' hdrained hcrashes c workers share dropped
    before undisturbed
  obtain ⟨hvalid, hpartitions⟩ := Settings.check_eq_ok_iff.mp hsettings
  have hr : Recorded c h s := recorded_run settings store scripts schedule
  have hsize : s.pipeline.workers.size = settings.partitions :=
    size_run_initial settings store scripts schedule
  have hlate : ∀ i ∈ workers, c.late (h ++ h') i = c.late h i ++ dropped i := by
    intro i hi
    exact hcalm.late_ingest hvalid hrest hdrained hcrashes (hsize ▸ List.mem_range.mp hi)
  have hcloses : c.closes s.pipeline.watermark = before := by
    funext x
    have hphase := WindowConfig.closes_iff_phase hvalid s.pipeline.streamWatermark x
    rw [Pipeline.getD_streamWatermark] at hphase
    exact Bool.eq_iff_iff.mpr (hphase.trans (decide_eq_true_iff).symm)
  refine ⟨hlate, ?_, ?_, fun hundisturbed => ?_⟩
  · have hcount : s.pipeline.shared.counters.get .lateSpans
        = (account c h s .lateSpans).toUInt64 :=
      counted_run settings store scripts schedule (by simp)
    rw [hr.counted_calling (by simp) hcount, account_late hvalid, size_calling_run, hsize,
      List.flatMap_congr hlate, (List.flatMap_append_perm ..).symm.length_eq, List.length_append, hcount,
      account_late hvalid, hsize]
    exact UInt64.ofNat_add _ _
  · refine forall₂_congr fun i _ => WindowConfig.forall_mem_overtaken.trans ?_
    rw [hcloses]
    exact and_iff_right fun _ _ hx => hx
  · have hdropped : ∀ i ∈ workers, dropped i = (share i).filter before := by
      intro i hi
      have := hundisturbed i hi
      rw [← hcloses] at this ⊢
      exact WindowConfig.overtaken_eq_filter this
    have hshares := List.flatMap_filter_perm (l := (s.pipeline.batch spans).filter before)
      (fun x _ => partitionOf_lt x.windowKey hpartitions.2.1) (fun x => [x])
    simp only [List.flatMap_singleton', List.filter_filter] at hshares
    rw [List.flatMap_congr hdropped]
    simpa only [share, Pipeline.share, List.filter_filter, hsize, Bool.and_comm] using hshares

/-- Two workers have come to the time 5.  Of a batch of two traces one is told to the first worker, and
the other to the second, which drops its second span. -/
theorem late_in_batch_of_two_traces :
    let span (traceId spanId : String) (time : Timestamp) : Span :=
      { traceId := traceId, spanId := spanId, operationHash := "f", startTime := time }
    let spans : List Span := [span "t" "b" 20000, span "t" "c" 7, span "u" "d" 7]
    let turns : List Actor := (List.replicate 8 [.caller 0, .worker 0, .worker 1]).flatten
    ∃ p, Pipeline.start { partitions := 2 } ({} : Store) = .ok p ∧
      let s := (start p [[.ingest [span "t" "a" 5]]]).run turns
      let h := (start p [[.ingest [span "t" "a" 5]]]).history turns
      let h' := (calling s.pipeline (.ingest spans)).history turns
      WindowConfig.late {} (h ++ h') 0 = [] ∧
        WindowConfig.late {} (h ++ h') 1 = [span "t" "c" 7] ∧
        ((calling s.pipeline (.ingest spans)).run turns).pipeline.shared.counters.get .lateSpans = 1 := by
  intro span spans turns
  have hsettings : Settings.check { partitions := 2 } = .ok () := by decide
  obtain ⟨p, hp, hlate⟩ := late_in_batch hsettings ({} : Store)
  obtain rfl := Except.ok.inj (hp.symm.trans (Pipeline.start_eq hsettings _))
  refine ⟨_, hp, ?_⟩
  let s₀ := start (Pipeline.initial { partitions := 2 } ({} : Store)) [[.ingest [span "t" "a" 5]]]
  have hcalm : Calm (s₀.history turns) (s₀.run turns) :=
    ⟨by decide +kernel, by decide +kernel, by decide +kernel⟩
  obtain ⟨hdropped, hcount, -⟩ := hlate [[.ingest [span "t" "a" 5]]] turns hcalm (by decide +kernel) spans
    turns (by decide +kernel) (by decide +kernel)
  exact ⟨(hdropped 0 (by decide)).trans (by decide +kernel),
    (hdropped 1 (by decide)).trans (by decide +kernel), hcount.trans (by decide +kernel)⟩

/-- Nothing has been announced before the call.  If one worker gets the batch, a span of it is late
because it comes second.  It is not late if it comes first, or if the other span goes elsewhere. -/
theorem late_by_own_batch :
    -- it is its own parent, so that its trace is saved as it is
    let early : Span :=
      { traceId := "a", spanId := "1", parentSpanId := "1", operationHash := "f", startTime := 0 }
    let later : Span := { traceId := "t", spanId := "2", operationHash := "f", startTime := 20000 }
    let turns : List Actor := (List.replicate 8 [.caller 0, .worker 0, .worker 1]).flatten
    let before (partitions : Nat) := (Pipeline.start { partitions := partitions } ({} : Store)).toOption
    let after (partitions : Nat) (spans : List Span) :=
      (before partitions).map fun p => (calling p (.ingest spans)).run turns
    let late (partitions : Nat) (spans : List Span) := (after partitions spans).map fun s =>
      (decide s.Drained, s.pipeline.shared.counters.get .lateSpans)
    (before 1).map Pipeline.streamWatermark = some none ∧ late 1 [later, early] = some (true, 1) ∧
      late 1 [early, later] = some (true, 0) ∧ late 2 [later, early] = some (true, 0) := by
  decide +kernel

end System
end CallTrace
