import CallTrace.Proofs.Pipeline.Barrier
import CallTrace.Proofs.Pipeline.OneCall

/-! # What the stream watermark shows

The least timestamp stands for no time at all, so a stream watermark of nothing can mean two things:
no time was routed, or none but the least timestamp.  Whenever no call is under way, the stream
watermark is the highest time routed if and only if that is not the least timestamp
(`Pipeline.streamWatermark_eq_iff`).

A worker that answers a request for a report has taken all times that were sent to it before
(`Worker.Standing.watermark_of_reports`).  So the reports show the same time, if it is another than the
least.  A worker knows of the least timestamp only if it was sent to it, and then reports that
(`System.watermarks_reported`). -/

namespace CallTrace

/-! ### Highest times -/

/-- Two highest times that are the same up to the least timestamp are the same or nothing and the least
timestamp. -/
theorem Timestamp.max?_eq_or {times routed : List Timestamp} (hsub : ∀ t ∈ times, t ∈ routed)
    (hsame : times.max?.getD Int64.minValue = routed.max?.getD Int64.minValue) :
    times.max? = routed.max? ∨ routed.max? = some Int64.minValue ∧ times.max? = none := by
  cases hrouted : routed.max? with
  | none =>
    rw [List.max?_eq_none_iff.mp hrouted] at hsub
    exact .inl (List.max?_eq_none_iff.mpr (List.eq_nil_iff_forall_not_mem.mpr fun t ht => by
      simpa using hsub t ht))
  | some t =>
    rw [hrouted] at hsame
    cases htimes : times.max? with
    | none =>
      rw [htimes] at hsame
      exact .inr ⟨congrArg some hsame.symm, rfl⟩
    | some u =>
      rw [htimes] at hsame
      exact .inl (congrArg some hsame)

/-- The stream watermark does not tell the least timestamp from none. -/
theorem Pipeline.streamWatermark_eq_iff {σ : Type} {p : Pipeline σ} {highest : Option Timestamp}
    (h : highest.getD Int64.minValue = p.watermark) :
    p.streamWatermark = highest ↔ highest ≠ some Int64.minValue := by
  unfold streamWatermark
  cases highest with
  | none => simp [← h]
  | some t =>
    obtain rfl : t = p.watermark := h
    split
    · next hmin => simp [hmin]
    · next hmin => simpa using hmin

/-- A worker that answers a request for a report knows the highest time that was sent to it before, if
no further times were. -/
theorem Worker.Standing.watermark_of_reports {c : WindowConfig} (hc : c.Valid)
    {sent later : List Command} {deeds : List Deed} {w : Worker} {ticket : Nat}
    (h : w.Standing c (sent ++ later) deeds) (hw : w.Reports ticket) (hnew : .report ticket ∉ sent)
    (hlater : later.flatMap Command.times = []) :
    w.assembler.watermark = (sent.flatMap Command.times).max? := by
  obtain ⟨hdone, hassembler, -⟩ := h.done_of_reports hw hnew
  have hatleast := hdone.filterMap Deed.eventTime?
  have hatmost := h.work_prefix.filterMap Deed.eventTime?
  rw [Command.filterMap_eventTime?_flatMap_deeds] at hatleast
  rw [Command.filterMap_eventTime?_flatMap_deeds, List.flatMap_append, hlater, List.append_nil] at hatmost
  rw [hassembler, hc.watermark_after, hatmost.eq_of_length_le hatleast.length_le]

/-! ### Reports -/

namespace System
variable {σ : Type} [Repository σ]

theorem history_prefix (s : System σ) {done schedule : List Actor} (h : done <+: schedule) :
    s.history done <+: s.history schedule := by
  obtain ⟨rest, rfl⟩ := h
  exact history_append s done rest ▸ List.prefix_append ..

/-- If a caller asks for reports when everybody has returned, and gets them, then each shows the highest
time that was sent to its worker before. -/
theorem Calm.reported {settings : Settings} (hvalid : settings.windows.Valid) {store : σ}
    {scripts : List (List Request)} {schedule : List Actor} :
    let s := (start (Pipeline.initial settings store) scripts).run schedule
    let h := (start (Pipeline.initial settings store) scripts).history schedule
    Calm h s → ∀ {during : List Actor} {statuses : List PartitionStatus},
      let s' := (calling s.pipeline .sync).run during
      (∀ e ∈ (calling s.pipeline .sync).history during, e.isCrash = false) →
      s'.callers.map Caller.replies = [[(.sync, .ok statuses)]] →
      statuses.map PartitionStatus.partition = List.range settings.partitions ∧
      ∀ status ∈ statuses, ∃ i < settings.partitions,
        status.watermark = ((sentTo i h).flatMap Command.times).max? := by
  intro s h hcalm during statuses s' hcrashes hreplies
  have ht : Ticketed h s := ticketed_run settings store scripts schedule
  have hsize : s.pipeline.workers.size = settings.partitions :=
    size_run_initial settings store scripts schedule
  obtain ⟨d, hcallers, hreply⟩ := List.map_eq_singleton_iff.mp hreplies
  have hgot : (s'.callers[0]?.bind fun c => c.replies[0]?) = some (.sync, .ok statuses) := by
    simp [hcallers, hreply]
  obtain ⟨collected, hcollected, hok⟩ : ∃ collected, collected <+: during ∧
      (((calling s.pipeline .sync).run collected).pipeline.collectReports s.pipeline.nextTicket).1
        = .ok statuses := collected_of_reply (start s.pipeline [[.sync]]) (i := 0) (n := 0) rfl hgot
  obtain ⟨hpartitions, hanswers⟩ := Pipeline.collectReports_ok hok
  rw [size_calling_run, hsize] at hpartitions
  refine ⟨hpartitions, fun status hstatus => ?_⟩
  rcases mem_answers_run (calling s.pipeline .sync) collected (hanswers status hstatus) with
    hold | ⟨done, hdone, i, w, hw, hreports, hreported⟩
  · exact absurd (ht.answers _ hold) (Nat.lt_irrefl _)
  · have hi : i < s.pipeline.workers.size := by
      rw [← size_calling_run s.pipeline .sync done]
      exact (Array.getElem?_eq_some_iff.mp hw).1
    have hhistory := history_prefix (calling s.pipeline .sync) (hdone.trans hcollected)
    have hcalled := hcalm.called .sync (by simp) fun e he =>
      hcrashes e (hhistory.subset he)
    have hstanding := hcalled.recorded.standing i w hw
    rw [sentTo_append] at hstanding
    have hnew : .report s.pipeline.nextTicket ∉ sentTo i h :=
      fun hmem => Nat.lt_irrefl _ (ht.sent i _ (mem_sentTo.mp hmem))
    have hlater : (sentTo i ((calling s.pipeline .sync).history done)).flatMap Command.times = [] := by
      refine List.flatMap_eq_nil_iff.mpr fun command hcommand => ?_
      have hmem := (hcalled.sent_prefix i hi).subset hcommand
      rw [s.pipeline.orders_sync hi, List.mem_singleton] at hmem
      exact hmem ▸ rfl
    refine ⟨i, hsize ▸ hi, ?_⟩
    rw [show status = w.status from hreported]
    exact hstanding.watermark_of_reports hvalid hreports hnew hlater

/-- Whenever no call is under way, the stream watermark is the highest time routed if and only if that
is not the least timestamp.  A caller that asks for reports then gets them, one of each worker, and each
shows the highest time routed; only if that is the least timestamp, a report may show no time instead.
Saves may fail, but none may have broken down together with its worker. -/
theorem watermarks_reported {settings : Settings} (hsettings : settings.check = .ok ()) (store : σ) :
    ∃ p, Pipeline.start settings store = .ok p ∧ p.streamWatermark = none ∧
      ∀ (scripts : List (List Request)) (schedule : List Actor),
        let s := (start p scripts).run schedule
        let highest := s.routed.max?
        Calm ((start p scripts).history schedule) s →
        (s.pipeline.streamWatermark = highest ↔ highest ≠ some Int64.minValue) ∧
        ∀ during : List Actor,
          let s' := (calling s.pipeline .sync).run during
          s'.Drained → (∀ e ∈ (calling s.pipeline .sync).history during, e.isCrash = false) →
          ∃ statuses, s'.callers.map Caller.replies = [[(.sync, .ok statuses)]] ∧
            statuses.map PartitionStatus.partition = List.range settings.partitions ∧
            ∀ status ∈ statuses, status.watermark = highest ∨
              highest = some Int64.minValue ∧ status.watermark = none := by
  refine ⟨_, Pipeline.start_eq hsettings store, rfl, ?_⟩
  intro scripts schedule s highest hcalm
  obtain ⟨hvalid, -⟩ := Settings.check_eq_ok_iff.mp hsettings
  have ha := asked_run (Pipeline.initial settings store) scripts schedule
  obtain ⟨-, hannounced⟩ := hcalm.announced
  have hhighest : highest.getD Int64.minValue = s.pipeline.watermark :=
    hannounced.getD_max?_routed hcalm.returned
  refine ⟨Pipeline.streamWatermark_eq_iff hhighest, ?_⟩
  intro during s' hdrained hcrashes
  have hcalled := hcalm.called .sync (by simp) hcrashes
  obtain ⟨statuses, hreplies⟩ := hcalled.replied fun c hc => (hdrained.1 c hc).1
  obtain ⟨hpartitions, hreported⟩ := hcalm.reported hvalid hcrashes hreplies
  refine ⟨statuses, hreplies, hpartitions, fun status hstatus => ?_⟩
  obtain ⟨i, hi, hwatermark⟩ := hreported status hstatus
  rw [← size_run_initial settings store scripts schedule] at hi
  have hsent := hannounced.getD_max?_sent ha hcalm.returned hi
  rw [hwatermark]
  exact Timestamp.max?_eq_or (fun t ht => ha.mem_routed ht) (hsent.trans hhighest.symm)

/-- A caller has brought two spans and a time, and then another asks for reports. -/
theorem watermarks_reported_of_two_workers :
    let span (traceId : String) (time : Timestamp) : Span :=
      { traceId := traceId, spanId := "a", operationHash := "f", startTime := time }
    let scripts : List (List Request) := [[.ingest [span "t" 7, span "u" 3], .advance 5]]
    let turns : List Actor := (List.replicate 12 [.caller 0, .worker 0, .worker 1]).flatten
    ∃ p, Pipeline.start { partitions := 2 } ({} : Store) = .ok p ∧
      let s := (start p scripts).run turns
      s.pipeline.streamWatermark = some 7 ∧
        ∃ statuses, ((calling s.pipeline .sync).run turns).callers.map Caller.replies
            = [[(.sync, .ok statuses)]] ∧
          statuses.map PartitionStatus.partition = [0, 1] ∧
          ∀ status ∈ statuses, status.watermark = some 7 := by
  intro span scripts turns
  have hsettings : Settings.check { partitions := 2 } = .ok () := by decide
  obtain ⟨p, hp, -, hreported⟩ := watermarks_reported hsettings ({} : Store)
  obtain rfl := Except.ok.inj (hp.symm.trans (Pipeline.start_eq hsettings _))
  let s₀ := start (Pipeline.initial { partitions := 2 } ({} : Store)) scripts
  have hcalm : Calm (s₀.history turns) (s₀.run turns) :=
    ⟨by decide +kernel, by decide +kernel, by decide +kernel⟩
  have hhighest : (s₀.run turns).routed.max? = some 7 := by decide +kernel
  obtain ⟨hwatermark, hreplies⟩ := hreported scripts turns hcalm
  obtain ⟨statuses, hstatuses, hpartitions, hall⟩ := hreplies turns (by decide +kernel) (by decide +kernel)
  rw [hhighest] at hwatermark hall
  refine ⟨_, hp, hwatermark.mpr (by decide), statuses, hstatuses, hpartitions, fun status hstatus => ?_⟩
  exact (hall status hstatus).resolve_right fun hmin => absurd hmin.1 (by decide)

/-- One time is routed, the least timestamp.  The stream watermark shows none; told by itself all
workers report it, and told by a span only the worker of that span does. -/
theorem least_time_not_shown :
    let span : Span :=
      { traceId := "t", spanId := "a", operationHash := "f", startTime := Int64.minValue }
    let turns : List Actor := (List.replicate 8 [.caller 0, .worker 0, .worker 1]).flatten
    let after (request : Request) := (Pipeline.start { partitions := 2 } ({} : Store)).toOption.map
      fun p => (start p [[request]]).run turns
    let shown (request : Request) := (after request).map fun s =>
      (s.routed.max?, s.pipeline.streamWatermark)
    let reported (request : Request) := (after request).map fun s =>
      ((calling s.pipeline .sync).run turns).callers.map fun c => c.replies.map fun reply =>
        reply.2.toOption.map fun statuses => statuses.map PartitionStatus.watermark
    shown (.advance Int64.minValue) = some (some Int64.minValue, none) ∧
      reported (.advance Int64.minValue)
        = some [[some [some Int64.minValue, some Int64.minValue]]] ∧
      shown (.ingest [span]) = some (some Int64.minValue, none) ∧
      reported (.ingest [span]) = some [[some [none, some Int64.minValue]]] := by
  decide +kernel

end System
end CallTrace
