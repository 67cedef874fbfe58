import CallTrace.Proofs.Pipeline.System
import CallTrace.Proofs.Record.Reduction
import CallTrace.Proofs.Settings

/-! # No record beyond the limit is saved

A `Recorder` is a repository that remembers which traces it was asked to save, whatever came of
it.  The traces that wait in a worker were emitted by its assembler and fit into a record
(`Worker.Assembles`), and reducing them makes no record longer
(`Trace.Assembled.recordSize_reduce_le`).  So under every schedule of any callers and workers, no
repository is ever asked to save a trace beyond the limit (`System.saved_le_limit`). -/

namespace CallTrace

/-- A repository, and the traces it was asked to save. -/
structure Recorder (σ : Type) where
  store : σ
  saves : List Trace := []

instance {σ : Type} [Repository σ] : Repository (Recorder σ) where
  save t s := ((Repository.save t s.store).1, ⟨(Repository.save t s.store).2, s.saves ++ [t]⟩)
  deleteLandscape token s :=
    ((Repository.deleteLandscape token s.store).1,
      { s with store := (Repository.deleteLandscape token s.store).2 })
  getAll token s := Repository.getAll token s.store
  getByTraceId token traceId s := Repository.getByTraceId token traceId s.store
  getByTime token first last s := Repository.getByTime token first last s.store

/-! ### What waits in a worker -/

/-- The assembler of a worker is as after a run, and what waits to be saved was emitted by it. -/
structure Worker.Assembles (c : WindowConfig) (w : Worker) : Prop where
  sound : w.assembler.Sound
  settled : w.assembler.Settled
  config_eq : w.assembler.config = c
  closed : ∀ t ∈ w.closed, t.Assembled c

namespace Worker
variable {σ : Type} [Repository σ] {c : WindowConfig} {depthLimit : Nat} {w w' : Worker}
  {s s' : Shared σ}

theorem Assembles.halted (h : w.Assembles c) : w.halted.Assembles c :=
  ⟨h.sound, h.settled, h.config_eq, by simp [Worker.halted]⟩

theorem Assembles.withInbox (h : w.Assembles c) (inbox : List Command) :
    Assembles c { w with inbox := inbox } :=
  ⟨h.sound, h.settled, h.config_eq, h.closed⟩

/-- The worker after an operation of its assembler. -/
theorem Assembles.perform (h : w.Assembles c) (o : Operation) (inbox : List Command) :
    Assembles c { w with
      assembler := (w.assembler.perform o).1
      inbox := inbox
      closed := (w.assembler.perform o).2.traces } where
  sound := h.sound.perform h.settled o
  settled := h.settled.perform h.sound o
  config_eq := (Assembler.perform_config h.sound h.settled o).trans h.config_eq
  closed _ ht := h.config_eq ▸ (Assembler.mem_perform_traces h.sound h.settled ht).1

theorem Assembles.step (h : w.Assembles c) (hstep : Step depthLimit w s w' s') :
    w'.Assembles c := by
  cases hstep with
  | @save t closed hclosed =>
    have hrest : Assembles c { w with closed := closed } :=
      ⟨h.sound, h.settled, h.config_eq, fun u hu => h.closed u (hclosed ▸ .tail _ hu)⟩
    rw [worker_persist]
    split
    · exact hrest.halted
    · exact hrest
  | batchEnd => exact h.withInbox _
  | @push span spans inbox => exact h.perform (.push span) (.ingest spans :: inbox)
  | @advance time inbox => exact h.perform (.advance time) inbox
  | report => exact h.withInbox _
  | shutdown =>
    have := h.perform .discard []
    exact ⟨this.sound, this.settled, this.config_eq, by simp [Worker.halted]⟩

/-- A step saves the first trace that waits, as it is reduced, and nothing else. -/
theorem saves_step {s s' : Shared (Recorder σ)} (hstep : Step depthLimit w s w' s') :
    s'.store.saves = s.store.saves ++ (w.closed.take 1).map (reduced depthLimit) := by
  cases hstep with
  | save hclosed =>
    rw [store_persist, hclosed]
    rfl
  | batchEnd hclosed => simp [hclosed]
  | push hclosed => simp [hclosed, Shared.note]
  | advance hclosed => simp [hclosed, Shared.note]
  | report hclosed => simp [hclosed]
  | shutdown hclosed => simp [hclosed, Shared.note, Shared.say]

end Worker

/-! ### Schedules -/

/-- No trace beyond the limit waits anywhere or was saved. -/
structure Pipeline.Limited {σ : Type} (c : WindowConfig) (p : Pipeline (Recorder σ)) : Prop where
  workers : ∀ w ∈ p.workers, w.Assembles c
  saves : ∀ t ∈ p.shared.store.saves, t.recordSize ≤ c.maxRecordSize

namespace Pipeline
variable {σ : Type} {c : WindowConfig} {p q : Pipeline (Recorder σ)}

theorem saves_stepWorker? [Repository σ] {i : Nat} (hq : p.stepWorker? i = some q)
    {closed : List Trace} (hclosed : p.workers[i]?.map Worker.closed = some closed) :
    q.shared.store.saves
      = p.shared.store.saves ++ (closed.take 1).map (Worker.reduced p.depthLimit) := by
  obtain ⟨w, w', shared, hw, -, hstep, -, hstore, -⟩ := stepWorker?_eq_some hq
  rw [hw, Option.map_some, Option.some_inj] at hclosed
  rw [hstore, Worker.saves_step hstep, hclosed]

theorem limited_initial {settings : Settings} (h : settings.windows.Valid) (store : σ) :
    Limited settings.windows (initial settings ({ store := store } : Recorder σ)) where
  workers w hw := by
    obtain ⟨i, -, rfl⟩ := Array.mem_map.mp hw
    exact ⟨Assembler.sound_new h, Assembler.settled_new _, rfl, by simp⟩
  saves := by simp [initial]

theorem Limited.sameWork (h : p.Limited c) (hsame : SameWork p q) : q.Limited c where
  workers w hw := by
    obtain ⟨v, hv, e⟩ := hsame.exists_worker hw
    exact e ▸ (h.workers v hv).withInbox _
  saves := hsame.store ▸ h.saves

theorem Limited.stepWorker? [Repository σ] {i : Nat} (h : p.Limited c)
    (hq : p.stepWorker? i = some q) : q.Limited c := by
  obtain ⟨w, w', shared, hw, -, hstep, hworkers, -⟩ := stepWorker?_eq_some hq
  have hbefore := h.workers w (Array.mem_of_getElem? hw)
  constructor
  · intro v hv
    rw [hworkers] at hv
    rcases Array.mem_or_eq_of_mem_setIfInBounds hv with hv | rfl
    · exact h.workers v hv
    · exact hbefore.step hstep
  · rw [saves_stepWorker? hq (congrArg (Option.map Worker.closed) hw)]
    intro u hu
    rcases List.mem_append.mp hu with hu | hu
    · exact h.saves u hu
    · obtain ⟨t, ht, rfl⟩ := List.mem_map.mp hu
      have hfits := hbefore.closed t (List.mem_of_mem_take ht)
      exact Nat.le_trans (hfits.recordSize_reduce_le _) hfits.size_le

end Pipeline

namespace System
variable {σ : Type} [Repository σ]

/-- Whatever callers ask for and whoever's turn it is, no trace beyond the limit is saved: those
that are emitted fit, and reducing one never makes its record longer. -/
theorem saved_le_limit {settings : Settings} (h : settings.check = .ok ()) (store : σ)
    (scripts : List (List Request)) (schedule : List Actor) :
    (∃ p, Pipeline.start settings ({ store := store } : Recorder σ) = .ok p ∧
      ∀ t ∈ ((start p scripts).run schedule).pipeline.shared.store.saves,
        t.recordSize ≤ settings.maxRecordSize) ∧
    ∀ a ops depthLimit, Assembler.new? settings.windows = .ok a →
      ∀ t ∈ (a.run ops).2.traces, (t.reduce depthLimit).trace.recordSize ≤ t.recordSize := by
  constructor
  · refine ⟨_, Pipeline.start_eq h _, ?_⟩
    have hvalid := (Settings.check_eq_ok_iff.mp h).1
    refine (run_induction (I := Pipeline.Limited settings.windows) ?_ ?_ ?_ schedule).saves
    · exact fun c p hp => hp.sameWork (c.sameWork_step p)
    · exact fun i p q hp hq => hp.stepWorker? hq
    · exact Pipeline.limited_initial hvalid store
  · intro a ops depthLimit hnew t ht
    obtain ⟨hvalid, rfl⟩ := Assembler.new?_eq_ok_iff.mp hnew
    have hsound := Assembler.sound_new hvalid
    have hsettled := Assembler.settled_new settings.windows
    exact (Assembler.mem_run_traces hsound hsettled ht).1.recordSize_reduce_le depthLimit

/-- Two workers and a caller.  The trace with a span too deep is saved without that span, and the one
that calls itself is saved as it is. -/
theorem saved_le_limit_two_workers :
    let settings : Settings := { maxRecordSize := 800, partitions := 2, reductionDepth := 1 }
    let span (traceId spanId parentSpanId : String) (time : Timestamp) : Span :=
      { traceId := traceId, spanId := spanId, parentSpanId := parentSpanId, operationHash := spanId,
        startTime := time }
    let spans := [span "t" "a" "" 5, span "t" "b" "a" 6, span "t" "c" "b" 7, span "u" "d" "d" 8]
    let schedule := List.replicate 12 (Actor.caller 0) ++ List.replicate 10 (.worker 0)
      ++ List.replicate 6 (.worker 1)
    ∃ p, Pipeline.start settings ({ store := {} } : Recorder Store) = .ok p ∧
      let saves := ((start p [[.ingest spans, .advance 12000]]).run
        (schedule ++ [.worker 1])).pipeline.shared.store.saves
      let emitted := (Assembler.run { config := settings.windows }
        (spans.map .push ++ [.advance 12000])).2.traces
      (saves.map fun t => t.spans.map Span.spanId) = [["d"], ["a", "b"]] ∧
        (∀ t ∈ saves, t.recordSize ≤ 800) ∧
        (emitted.map fun t => t.spans.map Span.spanId) = [["a", "b", "c"], ["d"]] ∧
        ∀ t ∈ emitted, (t.reduce 1).trace.recordSize ≤ t.recordSize := by
  intro settings span spans schedule
  have h : settings.check = .ok () := by decide
  obtain ⟨⟨p, hp, hlimit⟩, hreduced⟩ := saved_le_limit h ({} : Store)
    [[.ingest spans, .advance 12000]] (schedule ++ [.worker 1])
  refine ⟨p, hp, ?_, hlimit, by decide +kernel, hreduced _ _ 1 rfl⟩
  obtain rfl := Except.ok.inj (hp.symm.trans (Pipeline.start_eq h _))
  -- evaluation stops at the hash table of a reduction, so the last step goes through its lemma
  obtain ⟨s, hs⟩ : ∃ s, (start (Pipeline.initial settings ({ store := {} } : Recorder Store))
    [[.ingest spans, .advance 12000]]).run schedule = s := ⟨_, rfl⟩
  obtain ⟨hsaved, hwaiting, hdepth, hsteps⟩ :
      (s.pipeline.shared.store.saves.map fun t => t.spans.map Span.spanId) = [["d"]] ∧
        s.pipeline.workers[1]?.map Worker.closed = some [.ofSpans (spans.take 3)] ∧
        s.pipeline.depthLimit = 1 ∧ (s.pipeline.stepWorker? 1).isSome = true := by
    rw [← hs]
    decide +kernel
  obtain ⟨q, hq⟩ := Option.isSome_iff_exists.mp hsteps
  have hmove : s.run [.worker 1] = { s with pipeline := q } := by
    simp only [run, List.foldl_cons, List.foldl_nil, move, hq]
  have hcut : (Worker.reduced 1 (.ofSpans (spans.take 3))).spans.map Span.spanId = ["a", "b"] := by
    rw [Worker.reduced, Trace.reduce, Trace.reduce?, Trace.spans_ofSpans,
      CallTree.ofSpans_of_passes (by decide)]
    decide +kernel
  rw [run_append, hs, hmove, Pipeline.saves_stepWorker? hq hwaiting, hdepth, List.map_append, hsaved]
  exact congrArg ([["d"], ·]) hcut

end System
end CallTrace
