import CallTrace.Proofs.Pipeline.Forecast

/-! # One assembler instead of many workers

The machine to compare a pipeline with is `Sequential`: one assembler that gets every span and time
when it comes, and reduces and saves at once what it emits.  It has no partitions, no inboxes and
no watermark beside that of its assembler.

However many workers a pipeline has and whoever's turn it is, when all inboxes are empty it has
saved the traces that the sequential machine saves, counted what that counts, and its workers hold
the slots that the one assembler holds (`System.drained_eq_sequential`). -/

namespace CallTrace

/-- One assembler whose traces are saved as soon as it emits them. -/
structure Sequential where
  depthLimit : Nat
  digest : Digest.Algorithm
  assembler : Assembler
  store : Store := {}
  counters : Counters := {}
deriving DecidableEq, Repr

namespace Sequential

def start (settings : Settings) : Except ConfigError Sequential := do
  let depthLimit ← depthLimit? settings.reductionDepth
  let assembler ← Assembler.new? settings.windows
  return { depthLimit := depthLimit, digest := settings.digest, assembler := assembler }

/-- Reduces a trace and saves what it became. -/
def save (q : Sequential) (t : Trace) : Sequential :=
  let r := t.reduce q.depthLimit
  { q with
    store := q.store.save r.trace
    counters := (q.counters.add (Worker.reductionCounter r) 1).add .persistedTraces 1 }

/-- Takes in what the assembler did. -/
def take (q : Sequential) (a : Assembler) (e : Emission) : Sequential :=
  e.traces.foldl save { q with assembler := a, counters := q.counters.record e.notices }

def step (q : Sequential) : Input → Sequential
  | .span s =>
    let (a, e) := q.assembler.push (s.signed q.digest)
    { q with counters := q.counters.add .receivedSpans 1 }.take a e
  | .time t =>
    let (a, e) := q.assembler.advance t
    q.take a e

def run (q : Sequential) (xs : List Input) : Sequential := xs.foldl step q

/-! ### What the machine saves and counts -/

/-- What becomes of the machine when its assembler runs and some amounts are counted besides. -/
structure After (receipts : List (Counter × UInt64)) (r : Assembler × Emission) (q q' : Sequential) :
    Prop where
  depthLimit : q'.depthLimit = q.depthLimit
  digest : q'.digest = q.digest
  assembler : q'.assembler = r.1
  traces : q'.store.traces.toList
    = q.store.traces.toList ++ r.2.traces.map (Worker.reduced q.depthLimit)
  counters : q'.counters = q.counters.tally (receipts
    ++ (Worker.savings q.depthLimit r.2.traces ++ r.2.notices.map Notice.count))

theorem After.trans {receipts receipts' : List (Counter × UInt64)} {r r' : Assembler × Emission}
    {q q' q'' : Sequential} (h : After receipts r q q') (h' : After receipts' r' q' q'') :
    After (receipts ++ receipts') (r'.1, r.2 ++ r'.2) q q'' where
  depthLimit := h'.depthLimit.trans h.depthLimit
  digest := h'.digest.trans h.digest
  assembler := h'.assembler
  traces := by
    rw [h'.traces, h.traces, h.depthLimit, List.append_assoc, ← List.map_append]
    rfl
  counters := by
    rw [h'.counters, h.counters, h.depthLimit]
    exact Counters.tally_tally_of_perm (.of_eq (Worker.savings_append ..))
      (.of_eq List.map_append) _

theorem after_save (q : Sequential) (t : Trace) :
    After [] (q.assembler, { traces := [t] }) q (q.save t) :=
  ⟨rfl, rfl, rfl, by simp [save, Store.save, Worker.reduced], rfl⟩

theorem after_saves (q : Sequential) (traces : List Trace) :
    After [] (q.assembler, { traces := traces }) q (traces.foldl save q) := by
  induction traces generalizing q with
  | nil => exact ⟨rfl, rfl, rfl, by simp, rfl⟩
  | cons t traces ih => exact (q.after_save t).trans (ih (q.save t))

theorem after_take (q : Sequential) (a : Assembler) (e : Emission) :
    After [] (a, e) q (q.take a e) := by
  have hnoted : After [] (a, { notices := e.notices }) q
      { q with assembler := a, counters := q.counters.record e.notices } :=
    ⟨rfl, rfl, rfl, by simp, Counters.record_eq_tally ..⟩
  have hemission : ({ notices := e.notices } : Emission) ++ ({ traces := e.traces } : Emission) = e :=
    congrArg (Emission.mk e.traces) (List.append_nil _)
  have htaken := hnoted.trans (after_saves _ e.traces)
  rw [hemission] at htaken
  exact htaken

theorem after_step (q : Sequential) (x : Input) :
    After (Input.receipts [x]) (q.assembler.perform (x.signed q.digest).operation) q (q.step x) := by
  cases x with
  | time t => exact q.after_take _ _
  | span s =>
    have hcounted : After [(.receivedSpans, 1)] (q.assembler, {}) q
        { q with counters := q.counters.add .receivedSpans 1 } :=
      ⟨rfl, rfl, rfl, by simp, rfl⟩
    exact hcounted.trans (after_take _ _ _)

/-- The assembler of the machine runs as if it were alone. -/
theorem after_run (q : Sequential) (xs : List Input) :
    After (Input.receipts xs)
      (q.assembler.run ((xs.map (Input.signed q.digest)).map Input.operation)) q (q.run xs) := by
  induction xs generalizing q with
  | nil => exact ⟨rfl, rfl, rfl, by simp [run, Assembler.run], rfl⟩
  | cons x xs ih =>
    have hstep := q.after_step x
    have hrest := ih (q.step x)
    rw [hstep.assembler, hstep.digest] at hrest
    rw [show x :: xs = [x] ++ xs from rfl, Input.receipts_append, List.singleton_append,
      List.map_cons, List.map_cons, Assembler.run]
    exact hstep.trans hrest

theorem start_eq {settings : Settings} (h : settings.check = .ok ()) :
    start settings = .ok {
      depthLimit := settings.reductionDepth.toInt.toNat
      digest := settings.digest
      assembler := { config := settings.windows } } := by
  obtain ⟨hwindows, hdepth, -⟩ := Settings.check_eq_ok_iff.mp h
  rw [start, depthLimit?, if_neg (Int64.not_lt.mpr hdepth),
    Assembler.new?_eq_ok_iff.mpr ⟨hwindows, rfl⟩]
  rfl

end Sequential

/-! ### Where a pipeline gets to -/

namespace Settings

/-- What the assembler of worker `i` does in the end about a stream. -/
def outcome (s : Settings) (xs : List Input) (i : Nat) : Assembler × Emission :=
  ({ config := s.windows } : Assembler).run
    (Input.shares s.partitions i Int64.minValue (xs.map (Input.signed s.digest)))

def prospect (s : Settings) (xs : List Input) : Prospect where
  size := s.partitions
  assembler i := (s.outcome xs i).1
  traces := ((List.range s.partitions).flatMap fun i => (s.outcome xs i).2.traces).map
    (Worker.reduced s.reductionDepth.toInt.toNat)
  counters := ({} : Counters).tally (Input.receipts xs
    ++ (Worker.savings s.reductionDepth.toInt.toNat
          ((List.range s.partitions).flatMap fun i => (s.outcome xs i).2.traces)
      ++ ((List.range s.partitions).flatMap fun i => (s.outcome xs i).2.notices).map Notice.count))

end Settings

namespace Pipeline
variable {settings : Settings}

theorem initial_workers (store : Store) :
    (initial settings store).workers.toList = (List.range settings.partitions).map fun i =>
      { partition := i, assembler := { config := settings.windows } } := by
  rw [initial, Array.toList_map, Array.toList_range]

theorem plain_initial (store : Store) : (initial settings store).Plain where
  partition_eq i w hw := by
    rw [← Array.getElem?_toList, initial_workers, List.getElem?_map] at hw
    obtain ⟨j, hj, rfl⟩ := Option.map_eq_some_iff.mp hw
    obtain ⟨-, rfl⟩ := List.getElem?_eq_some_iff.mp hj
    simp
  running w hw := by
    rw [← Array.mem_toList_iff, initial_workers] at hw
    obtain ⟨i, -, rfl⟩ := List.mem_map.mp hw
    rfl
  inbox w hw := by
    rw [← Array.mem_toList_iff, initial_workers] at hw
    obtain ⟨i, -, rfl⟩ := List.mem_map.mp hw
    simp

theorem foretells_initial (hkeep : settings.discard = false) (xs : List Input) :
    (initial settings ({} : Store)).Foretells {} xs (settings.prospect xs) := by
  have hsize : (initial settings ({} : Store)).workers.size = settings.partitions := by
    simp [initial]
  have hplan : ∀ i, (initial settings ({} : Store)).plan {} xs i
      = Input.shares settings.partitions i Int64.minValue (xs.map (Input.signed settings.digest)) := by
    intro i
    rw [plan_nil, hsize]
    rfl
  have houtlook : (initial settings ({} : Store)).workers.toList.map
      (outlook ((initial settings ({} : Store)).plan {} xs))
        = (List.range settings.partitions).map fun i => (i, [], settings.outcome xs i) := by
    rw [initial_workers, List.map_map]
    refine List.map_congr_left fun i _ => ?_
    rw [Function.comp_apply, outlook, hplan]
    rfl
  refine ⟨plain_initial _, hkeep, by simp, hsize, ?_, ?_, ?_⟩
  · intro w hw
    rw [← Array.mem_toList_iff, initial_workers] at hw
    obtain ⟨i, -, rfl⟩ := List.mem_map.mp hw
    rw [hplan]
    rfl
  · rw [unsaved_eq, houtlook, List.flatMap_map]
    exact .refl _
  · rw [unsaved_eq, unsaid_eq, houtlook, List.flatMap_map, List.flatMap_map]
    rfl

end Pipeline

/-- A new assembler has nothing to share. -/
theorem Assembler.partOf_new (n i : Nat) (c : WindowConfig) :
    PartOf n i { config := c } { config := c } := ⟨rfl, rfl, rfl⟩

/-- Together the workers save, count and hold what one assembler does. -/
theorem Settings.prospect_eq_sequential {settings : Settings} (h : settings.check = .ok ())
    (xs : List Input) {q : Sequential} (hq : Sequential.start settings = .ok q) :
    (settings.prospect xs).traces.Perm (q.run xs).store.traces.toList ∧
      (settings.prospect xs).counters = (q.run xs).counters ∧
      ((List.range settings.partitions).flatMap fun i =>
        ((settings.prospect xs).assembler i).slots).Perm (q.run xs).assembler.slots := by
  obtain ⟨hwindows, -, hpartitions, -⟩ := Settings.check_eq_ok_iff.mp h
  obtain rfl := Except.ok.inj ((Sequential.start_eq h).symm.trans hq)
  have hsound := Assembler.sound_new hwindows
  have hsettled := Assembler.settled_new settings.windows
  have hparts : ∀ i < settings.partitions,
      Assembler.PartOf settings.partitions i { config := settings.windows }
        { config := settings.windows } := fun i _ => Assembler.partOf_new ..
  have htraces := Assembler.traces_run_shares_perm hpartitions hparts hsound hsettled
    (xs.map (Input.signed settings.digest))
  have hnotices := Assembler.notices_run_shares_perm hpartitions hparts hsound hsettled
    (xs.map (Input.signed settings.digest))
  have hslots := Assembler.slots_parts_perm hpartitions fun i hi =>
    (hparts i hi).run_shares hsound hsettled (xs.map (Input.signed settings.digest))
  have hafter := Sequential.after_run {
    depthLimit := settings.reductionDepth.toInt.toNat
    digest := settings.digest
    assembler := { config := settings.windows } } xs
  refine ⟨?_, ?_, ?_⟩
  · rw [hafter.traces]
    exact htraces.map _
  · rw [hafter.counters]
    exact Counters.tally_perm (((Worker.savings_perm _ htraces).append
      (hnotices.map Notice.count)).append_left _) _
  · rw [hafter.assembler]
    exact hslots

namespace System

/-- However many workers there are, and in whatever order callers and workers move, a pipeline that
gets spans and times from one caller does what one assembler does. -/
theorem drained_eq_sequential {settings : Settings} (h : settings.check = .ok ())
    (hkeep : settings.discard = false) (xs : List Input) (schedule : List Actor) :
    ∃ p q, Pipeline.start settings ({} : Store) = .ok p ∧ Sequential.start settings = .ok q ∧
      let s := (start p [xs.map Input.request]).run schedule
      s.Drained →
        s.pipeline.shared.store.traces.toList.Perm (q.run xs).store.traces.toList ∧
        s.pipeline.shared.counters = (q.run xs).counters ∧
        (s.pipeline.workers.toList.flatMap fun w => w.assembler.slots).Perm
          (q.run xs).assembler.slots := by
  refine ⟨_, _, Pipeline.start_eq h _, Sequential.start_eq h, fun hdrained => ?_⟩
  have hstart : (start (Pipeline.initial settings ({} : Store)) [xs.map Input.request]).Foretells
      (settings.prospect xs) :=
    ⟨_, {}, xs, rfl, ⟨rfl, .inl ⟨rfl, rfl⟩⟩, Pipeline.foretells_initial hkeep xs⟩
  obtain ⟨htraces, hcounters, hslots⟩ := (hstart.run schedule).drained hdrained
  obtain ⟨htraces', hcounters', hslots'⟩ :=
    settings.prospect_eq_sequential h xs (Sequential.start_eq h)
  exact ⟨htraces.trans htraces', hcounters.trans hcounters', hslots ▸ hslots'⟩

/-- Two traces that meet two workers, and a span that is late.  The second worker moves first. -/
theorem drained_eq_sequential_two_workers :
    ∃ p q, Pipeline.start { partitions := 2 } ({} : Store) = .ok p ∧
      Sequential.start { partitions := 2 } = .ok q ∧
      let xs : List Input := [
        .span {
          traceId := "1", spanId := "a", parentSpanId := "a"
          operationHash := "f", startTime := 5 },
        .span {
          traceId := "2", spanId := "b", parentSpanId := "b"
          operationHash := "f", startTime := 7 },
        .time 12000,
        .span {
          traceId := "1", spanId := "c", parentSpanId := "c"
          operationHash := "f", startTime := 6 },
        .span {
          traceId := "2", spanId := "d", parentSpanId := "d"
          operationHash := "f", startTime := 15000 }]
      let s := (start p [xs.map Input.request]).run (List.replicate 27 (.caller 0)
        ++ List.replicate 14 (.worker 1) ++ List.replicate 14 (.worker 0))
      s.Drained ∧ s.pipeline.shared.store.traces.toList.map (·.traceId) = ["2", "1"] ∧
        s.pipeline.shared.counters.lateSpans = 1 ∧
        s.pipeline.shared.store.traces.toList.Perm (q.run xs).store.traces.toList ∧
        s.pipeline.shared.counters = (q.run xs).counters ∧
        (s.pipeline.workers.toList.flatMap fun w => w.assembler.slots).Perm
          (q.run xs).assembler.slots := by
  have h : Settings.check { partitions := 2 } = .ok () := by decide
  obtain ⟨p, q, hp, hq, hagree⟩ := drained_eq_sequential h rfl [
      .span {
        traceId := "1", spanId := "a", parentSpanId := "a"
        operationHash := "f", startTime := 5 },
      .span {
        traceId := "2", spanId := "b", parentSpanId := "b"
        operationHash := "f", startTime := 7 },
      .time 12000,
      .span {
        traceId := "1", spanId := "c", parentSpanId := "c"
        operationHash := "f", startTime := 6 },
      .span {
        traceId := "2", spanId := "d", parentSpanId := "d"
        operationHash := "f", startTime := 15000 }]
    (List.replicate 27 (.caller 0) ++ List.replicate 14 (.worker 1)
      ++ List.replicate 14 (.worker 0))
  refine ⟨p, q, hp, hq, ?_⟩
  obtain rfl := Except.ok.inj (hp.symm.trans (Pipeline.start_eq h _))
  exact ⟨by decide +kernel, by decide +kernel, by decide +kernel, hagree (by decide +kernel)⟩

end System

end CallTrace
