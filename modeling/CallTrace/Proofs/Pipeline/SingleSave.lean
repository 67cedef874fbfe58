import CallTrace.Proofs.Pipeline.RecordLimit
import CallTrace.Proofs.Pipeline.Requests
import CallTrace.Proofs.Window.Emission
import CallTrace.Proofs.Window.Homogeneity

/-! # Every window of a key is saved once

All spans of a key go to one worker, which takes them in the order in which they came.  So the
closed traces of a key come from one assembler, and that never emits a window twice, whatever else
it is told and in whatever order (`Assembler.Sound.pairwise_rank_run`).  No order between callers is
used: times may be announced twice, and lower ones after higher ones.

A closed trace is handed over once, whatever the repository says to it, and reducing it changes
neither its key nor its window.  So no two traces of one key and window are ever saved
(`System.saved_once`). -/

namespace CallTrace

/-! ### Keys and windows -/

/-- The key and the start of the window of a trace. -/
def Trace.origin (c : WindowConfig) (t : Trace) : String × Timestamp :=
  (t.windowKey, (c.windowOf t.startTime).start)

theorem Trace.Assembled.origin_reduce {c : WindowConfig} {t : Trace} (h : t.Assembled c)
    (depthLimit : Nat) : (Worker.reduced depthLimit t).origin c = t.origin c := by
  unfold Worker.reduced reduce
  split
  · next r hr =>
    obtain ⟨hr_eq, hr_ne, hsub⟩ := reduce?_eq_ok hr
    -- the key is that of the first span, and the start is that of some span
    obtain ⟨s, spans, e⟩ := List.exists_cons_of_ne_nil hr_ne
    obtain ⟨x, hx, hstart⟩ := exists_startTime_ofSpans hr_ne
    have hs := (h.mem s (hsub.subset (e ▸ List.mem_cons_self))).1
    have hx := (h.mem x (hsub.subset hx)).2
    have hkey : r.windowKey = s.windowKey := by
      rw [hr_eq, e, ofSpans_cons]
      rfl
    show (r.windowKey, (c.windowOf r.startTime).start) = _
    rw [hkey, hs, hr_eq, ← hstart, hx, origin]
  · rfl

/-- No window of a key is emitted twice. -/
theorem WindowConfig.Valid.nodup_origins {c : WindowConfig} (hc : c.Valid) (deeds : List Deed) :
    ((c.after deeds).2.traces.map (Trace.origin c)).Nodup := by
  have hranks := (Assembler.sound_new hc).pairwise_rank_run (Assembler.settled_new c)
    (deeds.filterMap Deed.operation?)
  rw [List.pairwise_map] at hranks
  refine List.pairwise_map.mpr (hranks.imp fun {t u} hlt heq => ?_)
  have hrank : t.rank c = u.rank c :=
    congrArg (fun o : String × Timestamp => (o.2, Text.bytes o.1)) heq
  rw [hrank, Trace.RankLt, Prod.lex_def] at hlt
  rcases hlt with hlt | ⟨-, hlt⟩
  · exact Int64.lt_irrefl hlt
  · exact List.lt_irrefl _ hlt

/-! ### What happened to all workers together -/

/-- The spans that a command brings. -/
def Command.spans : Command → List Span
  | .ingest spans => spans
  | _ => []

/-- The span that a deed takes. -/
def Deed.span? : Deed → Option Span
  | .perform (.push x) => some x
  | _ => none

theorem Deed.span?_eq_some {d : Deed} {x : Span} (h : d.span? = some x) :
    d = .perform (.push x) := by
  cases d with
  | perform o => cases o <;> simp_all [span?]
  | _ => simp [span?] at h

theorem Deed.closed?_eq_some {d : Deed} {t : Trace} (h : d.closed? = some t) :
    ∃ result, d = .save t result := by
  cases d <;> simp_all [closed?]

theorem Command.filterMap_deeds (c : Command) : c.deeds.filterMap Deed.span? = c.spans := by
  cases c with
  | ingest spans =>
    rw [deeds, List.filterMap_map]
    exact List.filterMap_some
  | _ => rfl

/-- The spans that came into inboxes, in this order. -/
def enqueued (h : List Event) : List Span :=
  h.flatMap fun
    | .sent _ c => c.spans
    | .did _ _ => []

/-- The results of some deeds, in the order in which they were done. -/
def results {α : Type} (f : Deed → Option α) (h : List Event) : List α :=
  h.filterMap fun
    | .sent _ _ => none
    | .did _ d => f d

section
variable {α : Type} {g : α → Nat} {h : List Event}

theorem results_append (f : Deed → Option α) (h h' : List Event) :
    results f (h ++ h') = results f h ++ results f h' := List.filterMap_append

theorem results_did (f : Deed → Option α) (i : Nat) (deeds : List Deed) :
    results f (deeds.map (.did i)) = deeds.filterMap f := List.filterMap_map

theorem mem_results {f : Deed → Option α} {x : α} :
    x ∈ results f h ↔ ∃ i d, .did i d ∈ h ∧ f d = some x := by
  rw [results, List.mem_filterMap]
  constructor
  · rintro ⟨e | ⟨i, d⟩, he, heq⟩
    · cases heq
    · exact ⟨i, d, he, heq⟩
  · rintro ⟨i, d, hd, heq⟩
    exact ⟨_, hd, heq⟩

/-- What one worker does is what happens to it. -/
theorem results_filter_worker (f : Deed → Option α) (i : Nat) (h : List Event) :
    results f (h.filter fun e => e.worker = i) = (deedsOf i h).filterMap f := by
  rw [results, List.filterMap_filter, deedsOf, List.filterMap_filterMap]
  refine List.filterMap_congr fun e _ => ?_
  cases e with
  | sent j c => simp
  | did j d => by_cases hj : j = i <;> simp [Event.worker, hj]

/-- If the results tell which worker they come from, those of one worker can be picked out. -/
theorem filter_results {f : Deed → Option α}
    (hg : ∀ i d, .did i d ∈ h → ∀ x ∈ f d, g x = i) (i : Nat) :
    (results f h).filter (fun x => g x = i) = (deedsOf i h).filterMap f := by
  rw [results, List.filter_filterMap, deedsOf, List.filterMap_filterMap]
  refine List.filterMap_congr fun e he => ?_
  cases e with
  | sent j c => rfl
  | did j d =>
    by_cases hj : j = i
    · cases hd : f d with
      | none => simp [hj, hd]
      | some x => simp [hj, hd, hg j d he x hd]
    · cases hd : f d with
      | none => simp [hj, hd]
      | some x => simp [hj, hd, hg j d he x hd]

theorem filter_enqueued {g : Span → Nat}
    (hg : ∀ i c, .sent i c ∈ h → ∀ x ∈ c.spans, g x = i) (i : Nat) :
    (enqueued h).filter (fun x => g x = i) = (sentTo i h).flatMap Command.spans := by
  rw [enqueued, List.filter_flatMap, sentTo, List.filterMap_eq_flatMap_toList, List.flatMap_assoc]
  refine List.flatMap_congr fun e he => ?_
  cases e with
  | did j d => rfl
  | sent j c =>
    by_cases hj : j = i
    · simpa [hj] using fun x hx => (hg j c he x hx).trans hj
    · simpa [hj] using fun x hx e => hj ((hg j c he x hx).symm.trans e)

end

theorem nodup_of_nodup_filter {α : Type} [DecidableEq α] (g : α → Nat) {l : List α}
    (h : ∀ i, (l.filter fun x => g x = i).Nodup) : l.Nodup := by
  refine List.nodup_iff_count_le_one.mpr fun x => ?_
  rw [← List.count_filter (p := fun y => g y = g x) (by simp)]
  exact List.nodup_iff_count_le_one.mp (h (g x)) x

/-! ### One worker for each key -/

namespace System
variable {σ : Type} {c : WindowConfig} {h : List Event} {s : System σ}

/-- To a worker come only spans whose key leads to it. -/
theorem Asked.partitionOf_sent (ha : Asked h s) {i : Nat} {command : Command}
    (hsent : .sent i command ∈ h) :
    ∀ x ∈ command.spans, partitionOf x.windowKey s.pipeline.workers.size = i := by
  intro x hx
  obtain ⟨request, -, htells⟩ := ha.sent i command hsent
  cases command with
  | ingest spans => exact (htells x hx).1
  | _ => simp [Command.spans] at hx

/-- A worker takes nothing but such spans. -/
theorem Recorded.partitionOf_span (hr : Recorded c h s) (ha : Asked h s) {i : Nat} {x : Span}
    (hx : .did i (.perform (.push x)) ∈ h) :
    partitionOf x.windowKey s.pipeline.workers.size = i := by
  obtain ⟨w, -, hstanding⟩ := hr.standing_of_mem hx
  have hwork : Deed.perform (.push x) ∈ (deedsOf i h).filter Deed.isWork :=
    List.mem_filter.mpr ⟨mem_deedsOf.mpr hx, rfl⟩
  obtain ⟨command, hcommand, hd⟩ := List.mem_flatMap.mp (hstanding.work_prefix.subset hwork)
  refine ha.partitionOf_sent (mem_sentTo.mp hcommand) x ?_
  rw [← command.filterMap_deeds]
  exact List.mem_filterMap.mpr ⟨_, hd, rfl⟩

/-- Nor does it save traces of other keys. -/
theorem Recorded.partitionOf_closed (hc : c.Valid) (hr : Recorded c h s) (ha : Asked h s) {i : Nat}
    {t : Trace} {result : Except StoreFault Unit} (ht : .did i (.save t result) ∈ h) :
    t.Assembled c ∧ partitionOf t.windowKey s.pipeline.workers.size = i := by
  obtain ⟨w, -, hstanding⟩ := hr.standing_of_mem ht
  have hclosed : t ∈ (deedsOf i h).filterMap Deed.closed? :=
    List.mem_filterMap.mpr ⟨_, mem_deedsOf.mpr ht, rfl⟩
  have hemitted := hstanding.closed_prefix.subset hclosed
  have hassembled := (Assembler.mem_run_traces (Assembler.sound_new hc) (Assembler.settled_new c)
    hemitted).1
  refine ⟨hassembled, ?_⟩
  have hpushed : ∀ x, Operation.push x ∈ (deedsOf i h).filterMap Deed.operation? →
      partitionOf x.windowKey s.pipeline.workers.size = i := by
    intro x hx
    obtain ⟨d, hd, e⟩ := List.mem_filterMap.mp hx
    cases d with
    | perform o =>
      obtain rfl := Option.some.inj e
      exact hr.partitionOf_span ha (mem_deedsOf.mp hd)
    | _ => simp [Deed.operation?] at e
  obtain ⟨x, hx⟩ := List.exists_mem_of_ne_nil _ hassembled.spans_ne
  rw [← (hassembled.mem x hx).1]
  exact Assembler.forall_spans_of_mem_run (Assembler.sound_new hc) (Assembler.settled_new c)
    (by simp [Assembler.HoldsOnly]) hpushed hemitted x hx

/-- The spans of a key are taken in the order in which they came. -/
theorem Recorded.prefix_enqueued (hr : Recorded c h s) (ha : Asked h s) (key : String) :
    (results Deed.span? h).filter (fun x => x.windowKey = key)
      <+: (enqueued h).filter fun x => x.windowKey = key := by
  let g : Span → Nat := fun x => partitionOf x.windowKey s.pipeline.workers.size
  have hpick : ∀ l : List Span, l.filter (fun x => x.windowKey = key)
      = (l.filter fun x => g x = partitionOf key s.pipeline.workers.size).filter
          fun x => x.windowKey = key := by
    intro l
    rw [List.filter_filter]
    refine List.filter_congr fun x _ => ?_
    by_cases hx : x.windowKey = key <;> simp [hx, g]
  have htaken : ∀ i d, .did i d ∈ h → ∀ x ∈ d.span?, g x = i := by
    intro i d hd x hx
    obtain rfl := Deed.span?_eq_some hx
    exact hr.partitionOf_span ha hd
  have hsent : ∀ i c, .sent i c ∈ h → ∀ x ∈ c.spans, g x = i := fun i c => ha.partitionOf_sent
  rw [hpick, hpick (enqueued h), filter_results htaken, filter_enqueued hsent]
  have hwork := (hr.work_prefix (partitionOf key s.pipeline.workers.size)).filterMap Deed.span?
  rw [Deed.filterMap_filter_isWork fun _ _ => rfl, List.filterMap_flatMap] at hwork
  simp only [Command.filterMap_deeds] at hwork
  exact hwork.filter _

/-- No two closed traces that are handed over have one key and one window. -/
theorem Recorded.nodup_origins (hc : c.Valid) (hr : Recorded c h s) (ha : Asked h s) :
    ((results Deed.closed? h).map (Trace.origin c)).Nodup := by
  refine nodup_of_nodup_filter (fun o => partitionOf o.1 s.pipeline.workers.size) fun i => ?_
  have hclosed : ∀ i d, .did i d ∈ h → ∀ t ∈ d.closed?,
      partitionOf t.windowKey s.pipeline.workers.size = i := by
    intro i d hd t ht
    obtain ⟨result, rfl⟩ := Deed.closed?_eq_some ht
    exact (hr.partitionOf_closed hc ha hd).2
  rw [List.filter_map]
  show (((results Deed.closed? h).filter fun t =>
    partitionOf t.windowKey s.pipeline.workers.size = i).map (Trace.origin c)).Nodup
  rw [filter_results hclosed]
  exact (hc.nodup_origins (deedsOf i h)).sublist ((hr.closed_prefix i).map _).sublist

/-- Reducing them changes no keys and no windows. -/
theorem Recorded.map_origin_reduced (hc : c.Valid) (hr : Recorded c h s) (ha : Asked h s)
    (depthLimit : Nat) :
    (results Deed.closed? h).map (Trace.origin c ∘ Worker.reduced depthLimit)
      = (results Deed.closed? h).map (Trace.origin c) := by
  refine List.map_congr_left fun t ht => ?_
  obtain ⟨i, d, hd, hclosed⟩ := mem_results.mp ht
  obtain ⟨result, rfl⟩ := Deed.closed?_eq_some hclosed
  exact (hr.partitionOf_closed hc ha hd).1.origin_reduce depthLimit

end System

/-! ### Saves -/

/-- A worker hands over the first trace that waits, and nothing else. -/
theorem Worker.filterMap_closed?_deeds {σ : Type} [Repository σ] {depthLimit : Nat} {store : σ}
    {w : Worker} (hrunning : w.running = true) :
    (w.deeds depthLimit store).filterMap Deed.closed? = w.closed.take 1 := by
  cases hclosed : w.closed with
  | cons t closed =>
    rw [deeds_of_closed hrunning hclosed]
    rfl
  | nil =>
    cases hinbox : w.inbox with
    | nil => simp [deeds, hrunning, hclosed, hinbox]
    | cons c inbox =>
      rw [deeds_of_inbox hrunning hclosed hinbox]
      cases c with
      | ingest spans => cases spans <;> rfl
      | _ => rfl

namespace System
variable {σ : Type} [Repository σ]

/-- In a step the repository gets the reductions of the closed traces that are handed over. -/
theorem Step.saves {s s' : System (Recorder σ)} {es : List Event} (hstep : s.Step es s') :
    s'.pipeline.shared.store.saves = s.pipeline.shared.store.saves
      ++ (results Deed.closed? es).map (Worker.reduced s.pipeline.depthLimit) := by
  cases hstep with
  | pass => exact (List.append_nil _).symm
  | worker hw hrunning hstep hput =>
    rw [hput.store, Worker.saves_step hstep, results_did, Worker.filterMap_closed?_deeds hrunning]
  | caller hc hstep =>
    rcases hstep.aside_or_sent with ⟨rfl, haside⟩ | ⟨i, command, w, ready, rfl, -, -, rfl⟩
    · rw [haside.store]
      exact (List.append_nil _).symm
    · exact (List.append_nil _).symm

/-- A repository gets the reductions of the closed traces that are handed over, and nothing else. -/
theorem saves_run (s : System (Recorder σ)) (schedule : List Actor) :
    (s.run schedule).pipeline.shared.store.saves = s.pipeline.shared.store.saves
      ++ (results Deed.closed? (s.history schedule)).map
        (Worker.reduced s.pipeline.depthLimit) := by
  refine (history_induction (I := fun h s' =>
    s'.pipeline.depthLimit = s.pipeline.depthLimit ∧
    s'.pipeline.shared.store.saves = s.pipeline.shared.store.saves
      ++ (results Deed.closed? h).map (Worker.reduced s.pipeline.depthLimit))
    ?_ ⟨rfl, (List.append_nil _).symm⟩ schedule).2
  rintro h s₁ es s₂ ⟨hdepth, hsaves⟩ hstep
  refine ⟨hstep.same.2.1.trans hdepth, ?_⟩
  rw [hstep.saves, hsaves, hdepth, results_append, List.map_append, List.append_assoc]

/-- Whatever callers ask for and whoever's turn it is: all spans of a key are taken by one worker, in
the order in which they came; of all closed traces that are handed over no two have one key and one
window, and neither have any two traces that the repository was asked to save. -/
theorem saved_once {settings : Settings} (hsettings : settings.check = .ok ()) (store : σ)
    (scripts : List (List Request)) (schedule : List Actor) :
    ∃ p, Pipeline.start settings ({ store := store } : Recorder σ) = .ok p ∧
      let happened := (start p scripts).history schedule
      let saves := ((start p scripts).run schedule).pipeline.shared.store.saves
      (∀ key, partitionOf key settings.partitions < settings.partitions) ∧
      (∀ i c, .sent i c ∈ happened → ∀ x ∈ c.spans,
        i = partitionOf x.windowKey settings.partitions) ∧
      (∀ i x, .did i (.perform (.push x)) ∈ happened →
        i = partitionOf x.windowKey settings.partitions) ∧
      (∀ key : String, (results Deed.span? happened).filter (fun x => x.windowKey = key)
        <+: (enqueued happened).filter fun x => x.windowKey = key) ∧
      ((results Deed.closed? happened).map (Trace.origin settings.windows)).Nodup ∧
      saves = (results Deed.closed? happened).map (Worker.reduced p.depthLimit) ∧
      (saves.map (Trace.origin settings.windows)).Nodup := by
  obtain ⟨hvalid, -, hpartitions, -⟩ := Settings.check_eq_ok_iff.mp hsettings
  refine ⟨_, Pipeline.start_eq hsettings _, ?_⟩
  intro happened saves
  have hr := recorded_run settings ({ store := store } : Recorder σ) scripts schedule
  have ha := asked_run (Pipeline.initial settings ({ store := store } : Recorder σ)) scripts schedule
  have hsize := size_run_initial settings ({ store := store } : Recorder σ) scripts schedule
  have hsaves : saves = (results Deed.closed? happened).map _ := saves_run _ schedule
  refine ⟨fun key => partitionOf_lt key hpartitions, fun i c hc x hx => ?_, fun i x hx => ?_,
    hr.prefix_enqueued ha, hr.nodup_origins hvalid ha, hsaves, ?_⟩
  · exact hsize ▸ (ha.partitionOf_sent hc x hx).symm
  · exact hsize ▸ (hr.partitionOf_span ha hx).symm
  · rw [hsaves, List.map_map]
    exact (hr.map_origin_reduced hvalid ha _).symm ▸ hr.nodup_origins hvalid ha

/-- Two callers and two workers in turn.  The higher time is announced before the lower one, and a
span of the saved window comes late. -/
theorem saved_once_two_callers :
    let span (id : String) (time : Timestamp) : Span :=
      { traceId := "t", spanId := id, parentSpanId := id, operationHash := "f", startTime := time }
    let scripts : List (List Request) := [[.ingest [span "a" 5], .advance 30000],
      [.ingest [span "b" 7], .advance 12000, .ingest [span "c" 9], .shutdown]]
    let schedule : List Actor :=
      (List.replicate 18 [.caller 1, .caller 0, .worker 0, .worker 1]).flatten
    ∃ p, Pipeline.start { partitions := 2 } ({ store := {} } : Recorder Store) = .ok p ∧
      let happened := (start p scripts).history schedule
      let saves := ((start p scripts).run schedule).pipeline.shared.store.saves
      (results Deed.span? happened).map Span.spanId = ["b", "a", "c"] ∧
      (saves.map fun t => t.spans.map Span.spanId) = [["b", "a"]] ∧
      (saves.map (Trace.origin {})).Nodup := by
  intro span scripts schedule
  have hsettings : Settings.check { partitions := 2 } = .ok () := by decide
  obtain ⟨p, hp, -, -, -, -, -, -, hnodup⟩ := saved_once hsettings ({} : Store) scripts schedule
  refine ⟨p, hp, ?_, ?_, hnodup⟩
  · obtain rfl := Except.ok.inj (hp.symm.trans (Pipeline.start_eq hsettings _))
    decide +kernel
  · obtain rfl := Except.ok.inj (hp.symm.trans (Pipeline.start_eq hsettings _))
    decide +kernel

end System
end CallTrace
