import CallTrace.Proofs.Counters
import CallTrace.Proofs.Pipeline.System
import CallTrace.Proofs.Settings
import CallTrace.Proofs.Window.Partition

/-! # What a schedule cannot change

A worker that only gets spans and times works them off in their order, so where it gets to is known
before it moves: its assembler runs through what the inbox holds and what is still to come
(`Worker.outcome`).  A step saves or says a part of that, and the rest stays to come
(`Worker.Step.progress`).

To a worker come the sends that are left of a call, then the time the call announces, and then its
shares of the inputs after it (`Pipeline.plan`).  Beginning a call, sending and announcing turn one
of these into another and change nothing about the whole.  So a pipeline with one caller keeps to
its prospect (`Pipeline.Foretells`) whoever moves (`System.Foretells.run`), and it has got there
when nothing is left to do (`System.Foretells.drained`). -/

namespace CallTrace

/-! ### Workers -/

/-- What an assembler does about a command. -/
def Command.operations : Command → List Operation
  | .ingest spans => spans.map .push
  | .advance time => [.advance time]
  | .report _ => []
  | .shutdown => [.discard]

/-- Whether a command only brings spans or a time. -/
def Command.Plain : Command → Prop
  | .ingest _ => True
  | .advance _ => True
  | .report _ => False
  | .shutdown => False

namespace Worker
variable {depthLimit : Nat} {w w' : Worker} {s s' : Shared Store}

/-- Where the assembler of a worker gets to, and what it emits on the way, if after its inbox some
more operations come to it. -/
def outcome (w : Worker) (ops : List Operation) : Assembler × Emission :=
  w.assembler.run (w.inbox.flatMap Command.operations ++ ops)

/-- What is counted when traces are saved. -/
def savings (depthLimit : Nat) (traces : List Trace) : List (Counter × UInt64) :=
  traces.flatMap fun t => [(reductionCounter (t.reduce depthLimit), 1), (.persistedTraces, 1)]

theorem savings_append (depthLimit : Nat) (l l' : List Trace) :
    savings depthLimit (l ++ l') = savings depthLimit l ++ savings depthLimit l' :=
  List.flatMap_append

theorem savings_perm (depthLimit : Nat) {l l' : List Trace} (h : l.Perm l') :
    (savings depthLimit l).Perm (savings depthLimit l') := h.flatMap_right _

/-- A step brings a worker closer to where it gets anyway: what is saved and said in it is no longer
to come. -/
structure Progress (depthLimit : Nat) (ops : List Operation) (w : Worker) (s : Shared Store)
    (w' : Worker) (s' : Shared Store) (saved : List Trace) (said : List Notice) : Prop where
  partition_eq : w'.partition = w.partition
  running : w'.running = true
  inbox : ∀ c ∈ w'.inbox, c.Plain
  assembler : (w.outcome ops).1 = (w'.outcome ops).1
  traces : w.closed ++ (w.outcome ops).2.traces = saved ++ (w'.closed ++ (w'.outcome ops).2.traces)
  notices : (w.outcome ops).2.notices = said ++ (w'.outcome ops).2.notices
  store : s'.store.traces.toList = s.store.traces.toList ++ saved.map (reduced depthLimit)
  counters : s'.counters
    = s.counters.tally (savings depthLimit saved ++ said.map Notice.count)

/-- The plain store saves every trace. -/
theorem persist_store (depthLimit : Nat) (t : Trace) (w : Worker) (s : Shared Store) :
    (persist depthLimit t w s).1 = w ∧
      (persist depthLimit t w s).2.store = s.store.save (reduced depthLimit t) ∧
      (persist depthLimit t w s).2.counters = s.counters.tally (savings depthLimit [t]) :=
  ⟨rfl, rfl, rfl⟩

theorem progress_perform {o : Operation} {rest : List Command} (hrunning : w.running = true)
    (hplain : ∀ c ∈ rest, c.Plain) (hclosed : w.closed = [])
    (hinbox : w.inbox.flatMap Command.operations = o :: rest.flatMap Command.operations)
    (ops : List Operation) :
    Progress depthLimit ops w s
      { w with
        assembler := (w.assembler.perform o).1
        inbox := rest
        closed := (w.assembler.perform o).2.traces }
      (s.note (w.assembler.perform o).2.notices) [] (w.assembler.perform o).2.notices := by
  have houtcome : w.outcome ops = (((w.assembler.perform o).1.run
        (rest.flatMap Command.operations ++ ops)).1,
      (w.assembler.perform o).2 ++ ((w.assembler.perform o).1.run
        (rest.flatMap Command.operations ++ ops)).2) := by
    rw [outcome, hinbox, List.cons_append, Assembler.run]
  refine ⟨rfl, hrunning, hplain, ?_, ?_, ?_, by simp [Shared.note], ?_⟩
  · rw [houtcome]
    rfl
  · rw [houtcome, hclosed]
    rfl
  · rw [houtcome]
    rfl
  · rw [Shared.note, Counters.record_eq_tally]
    rfl

theorem Step.progress (h : Step depthLimit w s w' s') (hrunning : w.running = true)
    (hplain : ∀ c ∈ w.inbox, c.Plain) (ops : List Operation) :
    ∃ saved said, Progress depthLimit ops w s w' s' saved said := by
  cases h with
  | @save t closed hclosed =>
    obtain ⟨hw, hstore, hcounters⟩ := persist_store depthLimit t { w with closed := closed } s
    refine ⟨[t], [], ?_⟩
    rw [hw]
    exact ⟨rfl, hrunning, hplain, rfl, by simp [hclosed, outcome], rfl, by simp [hstore, Store.save],
      by simpa using hcounters⟩
  | @batchEnd inbox hclosed hinbox =>
    refine ⟨[], [], rfl, hrunning, ?_, ?_, ?_, ?_, by simp, rfl⟩
    · exact fun c hc => hplain c (hinbox ▸ .tail _ hc)
    · simp [outcome, hinbox, Command.operations]
    · simp [outcome, hinbox, Command.operations]
    · simp [outcome, hinbox, Command.operations]
  | @push span spans inbox hclosed hinbox =>
    refine ⟨_, _, progress_perform (o := .push span) hrunning ?_ hclosed ?_ ops⟩
    · intro c hc
      rcases List.mem_cons.mp hc with rfl | hc
      · trivial
      · exact hplain c (hinbox ▸ .tail _ hc)
    · simp [hinbox, Command.operations]
  | @advance time inbox hclosed hinbox =>
    refine ⟨_, _, progress_perform (o := .advance time) hrunning ?_ hclosed ?_ ops⟩
    · exact fun c hc => hplain c (hinbox ▸ .tail _ hc)
    · simp [hinbox, Command.operations]
  | @report ticket inbox hclosed hinbox =>
    exact (hplain (.report ticket) (by simp [hinbox])).elim
  | @shutdown inbox hclosed hinbox =>
    exact (hplain .shutdown (by simp [hinbox])).elim

end Worker

/-! ### Pipelines -/

/-- How a pipeline stands when nothing is left to do: its workers' assemblers, the traces that were
saved, in some order, and the counters. -/
structure Prospect where
  size : Nat
  assembler : Nat → Assembler
  traces : List Trace
  counters : Counters

theorem perm_flatMap_set {α β : Type} {l : List α} {i : Nat} {x y : α} {f : α → List β}
    {extra : List β} (hx : l[i]? = some x) (hxy : f x = extra ++ f y) :
    (l.flatMap f).Perm (extra ++ (l.set i y).flatMap f) := by
  induction l generalizing i with
  | nil => simp at hx
  | cons z l ih =>
    cases i with
    | zero =>
      obtain rfl : z = x := by simpa using hx
      simp [hxy]
    | succ i =>
      have := ih (i := i) (by simpa using hx)
      rw [List.set_cons_succ, List.flatMap_cons, List.flatMap_cons]
      refine (this.append_left (f z)).trans ?_
      rw [← List.append_assoc, ← List.append_assoc]
      exact List.perm_append_comm.append_right _

namespace Pipeline
variable {p q : Pipeline Store} {plan : Nat → List Operation} {e : Prospect}

/-- The traces that are still to be saved if worker `i` gets the operations `plan i`. -/
def unsaved (plan : Nat → List Operation) (p : Pipeline Store) : List Trace :=
  p.workers.toList.flatMap fun w => w.closed ++ (w.outcome (plan w.partition)).2.traces

def unsaid (plan : Nat → List Operation) (p : Pipeline Store) : List Notice :=
  p.workers.toList.flatMap fun w => (w.outcome (plan w.partition)).2.notices

/-- Whether the workers run, each in its place, and have nothing but spans and times to come. -/
structure Plain (p : Pipeline Store) : Prop where
  partition_eq : ∀ (i : Nat) w, p.workers[i]? = some w → w.partition = i
  running : ∀ w ∈ p.workers, w.running = true
  inbox : ∀ w ∈ p.workers, ∀ c ∈ w.inbox, c.Plain

/-- One worker is replaced by another like it. -/
theorem Plain.set {i : Nat} {w w' : Worker} (h : p.Plain) (hw : p.workers[i]? = some w)
    (hq : q.workers = p.workers.setIfInBounds i w') (hpartition : w'.partition = w.partition)
    (hrunning : w'.running = true) (hinbox : ∀ c ∈ w'.inbox, c.Plain) : q.Plain := by
  have hcases : ∀ v ∈ q.workers, v ∈ p.workers ∨ v = w' := by
    intro v hv
    rw [hq] at hv
    exact Array.mem_or_eq_of_mem_setIfInBounds hv
  refine ⟨?_, ?_, ?_⟩
  · intro j v hv
    rw [hq, Array.getElem?_setIfInBounds] at hv
    split at hv
    · next hij =>
      split at hv
      · obtain rfl : w' = v := Option.some.inj hv
        rw [hpartition, ← hij]
        exact h.partition_eq i w hw
      · simp at hv
    · exact h.partition_eq j v hv
  · intro v hv
    rcases hcases v hv with hv | rfl
    · exact h.running v hv
    · exact hrunning
  · intro v hv
    rcases hcases v hv with hv | rfl
    · exact h.inbox v hv
    · exact hinbox

/-- Where a pipeline gets to, if workers get the operations `plan` and the amounts `receipts` are
counted besides. -/
structure Reaches (plan : Nat → List Operation) (receipts : List (Counter × UInt64)) (e : Prospect)
    (p : Pipeline Store) : Prop where
  size : p.workers.size = e.size
  assemblers : ∀ w ∈ p.workers, (w.outcome (plan w.partition)).1 = e.assembler w.partition
  traces : (p.shared.store.traces.toList
    ++ (p.unsaved plan).map (Worker.reduced p.depthLimit)).Perm e.traces
  counters : p.shared.counters.tally (receipts ++ (Worker.savings p.depthLimit (p.unsaved plan)
    ++ (p.unsaid plan).map Notice.count)) = e.counters

theorem stepWorker?_keeps {receipts : List (Counter × UInt64)} {i : Nat} (hplain : p.Plain)
    (h : p.Reaches plan receipts e) (hq : p.stepWorker? i = some q) :
    q.Plain ∧ q.Reaches plan receipts e := by
  obtain ⟨w, w', shared, hw, hrunning, hstep, hworkers, hstore, hcounters, hdepth, -⟩ :=
    stepWorker?_eq_some hq
  have hmem := Array.mem_of_getElem? hw
  obtain ⟨saved, said, hprogress⟩ :=
    hstep.progress hrunning (hplain.inbox w hmem) (plan w.partition)
  have hset : q.workers.toList = p.workers.toList.set i w' := by
    rw [hworkers, Array.toList_setIfInBounds]
  have hw' : p.workers.toList[i]? = some w := by rwa [Array.getElem?_toList]
  have hunsaved : (p.unsaved plan).Perm (saved ++ q.unsaved plan) := by
    rw [unsaved, unsaved, hset]
    refine perm_flatMap_set hw' ?_
    rw [hprogress.traces, hprogress.partition_eq]
  have hunsaid : (p.unsaid plan).Perm (said ++ q.unsaid plan) := by
    rw [unsaid, unsaid, hset]
    refine perm_flatMap_set hw' ?_
    rw [hprogress.notices, hprogress.partition_eq]
  refine ⟨hplain.set hw hworkers hprogress.partition_eq hprogress.running hprogress.inbox,
    ?_, ?_, ?_, ?_⟩
  · rw [hworkers, Array.size_setIfInBounds]
    exact h.size
  · intro v hv
    rw [hworkers] at hv
    rcases Array.mem_or_eq_of_mem_setIfInBounds hv with hv | rfl
    · exact h.assemblers v hv
    · rw [hprogress.partition_eq, ← hprogress.assembler]
      exact h.assemblers w hmem
  · rw [hstore, hprogress.store, hdepth, List.append_assoc, ← List.map_append]
    exact ((hunsaved.map _).symm.append_left _).trans h.traces
  · have hsavings := Worker.savings_perm p.depthLimit hunsaved
    have hnotices := hunsaid.map Notice.count
    rw [Worker.savings_append] at hsavings
    rw [List.map_append] at hnotices
    rw [hcounters, hprogress.counters, hdepth, ← h.counters]
    exact Counters.tally_tally_of_perm (k := []) hsavings hnotices _

/-- What a worker has and gets to. -/
def outlook (plan : Nat → List Operation) (w : Worker) :
    Nat × List Trace × Assembler × Emission :=
  (w.partition, w.closed, w.outcome (plan w.partition))

theorem unsaved_eq (plan : Nat → List Operation) (p : Pipeline Store) : p.unsaved plan
    = (p.workers.toList.map (outlook plan)).flatMap fun x => x.2.1 ++ x.2.2.2.traces := by
  rw [List.flatMap_map]
  rfl

theorem unsaid_eq (plan : Nat → List Operation) (p : Pipeline Store) : p.unsaid plan
    = (p.workers.toList.map (outlook plan)).flatMap fun x => x.2.2.2.notices := by
  rw [List.flatMap_map]
  rfl

/-- Where workers with the same outlook get to is the same. -/
theorem Reaches.congr {plan' : Nat → List Operation} {receipts receipts' : List (Counter × UInt64)}
    (h : p.Reaches plan receipts e)
    (hworkers : q.workers.toList.map (outlook plan') = p.workers.toList.map (outlook plan))
    (hdepth : q.depthLimit = p.depthLimit) (hstore : q.shared.store = p.shared.store)
    (hcounters : q.shared.counters.tally receipts' = p.shared.counters.tally receipts) :
    q.Reaches plan' receipts' e := by
  have hunsaved : q.unsaved plan' = p.unsaved plan := by rw [unsaved_eq, unsaved_eq, hworkers]
  have hunsaid : q.unsaid plan' = p.unsaid plan := by rw [unsaid_eq, unsaid_eq, hworkers]
  refine ⟨?_, ?_, ?_, ?_⟩
  · have := congrArg List.length hworkers
    simp only [List.length_map, Array.length_toList] at this
    exact this.trans h.size
  · intro w hw
    have hmem : outlook plan' w ∈ p.workers.toList.map (outlook plan) :=
      hworkers ▸ List.mem_map_of_mem (Array.mem_toList_iff.mpr hw)
    obtain ⟨v, hv, e⟩ := List.mem_map.mp hmem
    rw [Array.mem_toList_iff] at hv
    simp only [outlook, Prod.mk.injEq] at e
    have := h.assemblers v hv
    rwa [e.2.2, e.1] at this
  · rw [hdepth, hstore, hunsaved]
    exact h.traces
  · rw [hdepth, hunsaved, hunsaid, Counters.tally_append, hcounters, ← Counters.tally_append]
    exact h.counters

/-- Only the operations that come to some worker matter. -/
theorem Plain.map_outlook {plan' : Nat → List Operation} (h : p.Plain)
    (hplan : ∀ i < p.workers.size, plan' i = plan i) :
    p.workers.toList.map (outlook plan') = p.workers.toList.map (outlook plan) := by
  apply List.map_congr_left
  intro w hw
  obtain ⟨i, hi⟩ := List.mem_iff_getElem?.mp hw
  rw [Array.getElem?_toList] at hi
  have hlt := (Array.getElem?_eq_some_iff.mp hi).1
  rw [outlook, outlook, hplan w.partition (by rwa [h.partition_eq i w hi])]

/-- A command that is sent comes to its worker after all that is there. -/
theorem Plain.send? {worker : Nat} {c : Command} (h : p.Plain) (hlt : worker < p.workers.size)
    (hc : c.Plain) :
    ∃ w q, p.workers[worker]? = some w ∧ p.send? worker c = some q ∧ q.Plain ∧
      q.workers = p.workers.setIfInBounds worker { w with inbox := w.inbox ++ [c] } ∧
      q.shared = p.shared ∧ q.watermark = p.watermark ∧ q.depthLimit = p.depthLimit ∧
      q.digest = p.digest ∧ q.discard = p.discard := by
  obtain ⟨w, hw⟩ : ∃ w, p.workers[worker]? = some w := ⟨_, Array.getElem?_eq_getElem hlt⟩
  have hmem := Array.mem_of_getElem? hw
  have hrunning := h.running w hmem
  obtain ⟨ready, hsend⟩ := send?_of_running hw hrunning c
  refine ⟨w, _, hw, hsend, ?_, rfl, rfl, rfl, rfl, rfl, rfl⟩
  refine h.set hw rfl rfl hrunning ?_
  intro d hd
  rcases List.mem_append.mp hd with hd | hd
  · exact h.inbox w hmem d hd
  · exact List.mem_singleton.mp hd ▸ hc

/-- What has come to a worker is no longer to come. -/
theorem Plain.map_outlook_send {plan' : Nat → List Operation} {i : Nat} {w : Worker} {c : Command}
    (h : p.Plain) (hw : p.workers[i]? = some w)
    (hq : q.workers = p.workers.setIfInBounds i { w with inbox := w.inbox ++ [c] })
    (hplan : plan i = c.operations ++ plan' i) (hothers : ∀ j, j ≠ i → plan' j = plan j) :
    q.workers.toList.map (outlook plan') = p.workers.toList.map (outlook plan) := by
  rw [hq, Array.toList_setIfInBounds]
  apply List.ext_getElem?
  intro j
  rw [List.getElem?_map, List.getElem?_map, List.getElem?_set, Array.getElem?_toList]
  by_cases hij : i = j
  · subst hij
    have hlt := (Array.getElem?_eq_some_iff.mp hw).1
    rw [if_pos rfl, if_pos (by simpa using hlt), hw, Option.map_some, Option.map_some, outlook,
      outlook, Worker.outcome, Worker.outcome, h.partition_eq i w hw, hplan, List.flatMap_append,
      List.append_assoc, List.flatMap_singleton]
  · rw [if_neg hij]
    cases hv : p.workers[j]? with
    | none => rfl
    | some v =>
      rw [Option.map_some, Option.map_some, outlook, outlook, h.partition_eq j v hv,
        hothers j (Ne.symm hij)]

end Pipeline

/-! ### Calls -/

namespace Call

/-- What a call makes worker `i` do, if `known` is the highest time announced before. -/
def operations (i : Nat) (known : Timestamp) (c : Call) : List Operation :=
  ((c.sends.filter fun x => x.1 = i).flatMap fun x => x.2.operations)
    ++ match c.announcement with
      | some t => if known < t then [.advance t] else []
      | none => []

/-- The highest time announced after a call. -/
def announced (known : Timestamp) (c : Call) : Timestamp :=
  match c.announcement with
  | some t => max known t
  | none => known

end Call

namespace Input

/-- What a caller asks for to pass an input on. -/
def request : Input → Request
  | span s => .ingest [s]
  | time t => .advance t

def signed (digest : Digest.Algorithm) : Input → Input
  | span s => .span (s.signed digest)
  | time t => .time t

/-- What is counted when inputs are passed on. -/
def receipts (xs : List Input) : List (Counter × UInt64) :=
  xs.flatMap fun
    | span _ => [(.receivedSpans, 1)]
    | time _ => []

theorem receipts_append (xs ys : List Input) : receipts (xs ++ ys) = receipts xs ++ receipts ys :=
  List.flatMap_append

end Input

namespace Pipeline
variable {p q : Pipeline Store} {call : Call} {xs : List Input} {e : Prospect}

/-- What is still to come to worker `i` of a call and of inputs after it. -/
def plan (p : Pipeline Store) (call : Call) (xs : List Input) (i : Nat) : List Operation :=
  call.operations i p.watermark ++ Input.shares p.workers.size i (call.announced p.watermark)
    (xs.map (Input.signed p.digest))

/-- Where a pipeline gets to, if nothing comes to it but a call and inputs after it. -/
structure Foretells (call : Call) (xs : List Input) (e : Prospect) (p : Pipeline Store) : Prop where
  plain : p.Plain
  keeping : p.discard = false
  sends : ∀ x ∈ call.sends, x.1 < p.workers.size ∧ x.2.Plain
  reaches : p.Reaches (p.plan call xs) (Input.receipts xs) e

theorem Foretells.send {worker : Nat} {c : Command} {sends : List (Nat × Command)}
    {announcement : Option Timestamp}
    (h : p.Foretells ⟨(worker, c) :: sends, announcement⟩ xs e) :
    ∃ q, p.send? worker c = some q ∧ q.Foretells ⟨sends, announcement⟩ xs e := by
  obtain ⟨hlt, hc⟩ := h.sends _ List.mem_cons_self
  obtain ⟨w, q, hw, hq, hplain, hworkers, hshared, hwatermark, hdepth, hdigest, hdiscard⟩ :=
    h.plain.send? hlt hc
  have hsize : q.workers.size = p.workers.size := by rw [hworkers, Array.size_setIfInBounds]
  refine ⟨q, hq, hplain, hdiscard.trans h.keeping, ?_, ?_⟩
  · intro x hx
    rw [hsize]
    exact h.sends x (.tail _ hx)
  · refine h.reaches.congr (h.plain.map_outlook_send hw hworkers ?_ ?_) hdepth (by rw [hshared])
      (by rw [hshared])
    · simp [plan, Call.operations, Call.announced, hwatermark, hsize, hdigest]
    · intro i hi
      simp [plan, Call.operations, Call.announced, hwatermark, hsize, hdigest, Ne.symm hi]

/-- A call that leaves the workers alone may only turn into what it would bring anyway. -/
theorem Foretells.of_workers_eq {call' : Call} {xs' : List Input}
    (h : p.Foretells call xs e) (hworkers : q.workers = p.workers)
    (hdepth : q.depthLimit = p.depthLimit) (hdiscard : q.discard = p.discard)
    (hsends : ∀ x ∈ call'.sends, x.1 < p.workers.size ∧ x.2.Plain)
    (hplan : ∀ i < p.workers.size, q.plan call' xs' i = p.plan call xs i)
    (hstore : q.shared.store = p.shared.store)
    (hcounters : q.shared.counters.tally (Input.receipts xs')
      = p.shared.counters.tally (Input.receipts xs)) :
    q.Foretells call' xs' e := by
  have hq : q.Plain := by
    refine ⟨?_, ?_, ?_⟩ <;> rw [hworkers]
    · exact h.plain.partition_eq
    · exact h.plain.running
    · exact h.plain.inbox
  refine ⟨hq, hdiscard.trans h.keeping, hworkers ▸ hsends,
    h.reaches.congr ?_ hdepth hstore hcounters⟩
  rw [hworkers]
  exact h.plain.map_outlook hplan

theorem filter_filterMap_of_nodup {β : Type} {l : List Nat} {i : Nat} (hnodup : l.Nodup) (hi : i ∈ l)
    {F : Nat → Option (Nat × β)} (hF : ∀ j x, F j = some x → x.1 = j) :
    (l.filterMap F).filter (fun x => x.1 = i) = (F i).toList := by
  have heach : ∀ j ∈ l, ((F j).toList).filter (fun x => x.1 = i)
      = if i = j then (F i).toList else [] := by
    intro j _
    cases hFj : F j with
    | none =>
      split
      · next hij => simp [hij, hFj]
      · rfl
    | some x =>
      have hx := hF j x hFj
      by_cases hij : i = j
      · simp [hij, hFj, hx]
      · simp [hij, hx, Ne.symm hij]
  rw [List.filterMap_eq_flatMap_toList, List.filter_flatMap, List.flatMap_congr heach,
    List.flatMap_ite_eq hnodup hi]

theorem broadcast_operations {i : Nat} (hi : i < p.workers.size) (c : Command) :
    ((p.broadcast c).filter fun x => x.1 = i).flatMap (fun x => x.2.operations) = c.operations := by
  have hsome : p.broadcast c = (List.range p.workers.size).filterMap fun j => some (j, c) := by
    simp [broadcast]
  rw [hsome, filter_filterMap_of_nodup List.nodup_range (List.mem_range.mpr hi) (by simp)]
  simp

theorem broadcast_sends {t : Timestamp} :
    ∀ x ∈ p.broadcast (.advance t), x.1 < p.workers.size ∧ x.2.Plain := by
  intro x hx
  obtain ⟨i, hi, rfl⟩ := List.mem_map.mp hx
  exact ⟨List.mem_range.mp hi, trivial⟩

theorem plan_nil (p : Pipeline Store) (xs : List Input) (i : Nat) :
    p.plan {} xs i
      = Input.shares p.workers.size i p.watermark (xs.map (Input.signed p.digest)) := rfl

theorem plan_broadcast {i : Nat} (hi : i < p.workers.size) (t : Timestamp) (xs : List Input) :
    p.plan { sends := p.broadcast (.advance t) } xs i = .advance t :: p.plan {} xs i := by
  rw [plan, Call.operations, broadcast_operations hi]
  rfl

theorem Foretells.stepCall (h : p.Foretells call xs e) :
    ∃ rest q, p.stepCall call = (.ok rest, q) ∧
      q.Foretells (rest.getD {}) xs e := by
  obtain ⟨sends, announcement⟩ := call
  cases sends with
  | cons x sends =>
    obtain ⟨q, hq, hforetells⟩ := h.send
    exact ⟨some ⟨sends, announcement⟩, q, by rw [Pipeline.stepCall, hq], hforetells⟩
  | nil =>
    cases announcement with
    | none => exact ⟨none, p, rfl, h⟩
    | some t =>
      by_cases ht : p.watermark < t
      · refine ⟨_, _, if_pos ht, h.of_workers_eq rfl rfl rfl broadcast_sends ?_ rfl rfl⟩
        intro i hi
        have hold : p.plan { announcement := some t } xs i
            = .advance t :: (p.raise t).plan {} xs i := by
          simp only [plan, Call.operations, if_pos ht]
          rfl
        exact (plan_broadcast (p := p.raise t) hi t xs).trans hold.symm
      · refine ⟨_, _, if_neg ht, h.of_workers_eq rfl rfl rfl (by simp) ?_ rfl rfl⟩
        intro i hi
        have hmax : max p.watermark t = p.watermark := by
          rw [Timestamp.max_def]
          grind
        simp only [plan, Call.operations, Call.announced, Option.getD_none, if_neg ht, hmax]

/-- The call of a single span. -/
theorem routing_singleton {σ : Type} (p : Pipeline σ) (s : Span) :
    p.routing [s] = {
      sends := (List.range p.workers.size).filterMap fun i =>
        if partitionOf s.windowKey p.workers.size = i then some (i, .ingest [s]) else none
      announcement := some s.startTime } := by
  simp only [routing, Call.mk.injEq]
  refine ⟨List.filterMap_congr fun i _ => ?_, rfl⟩
  by_cases hi : partitionOf s.windowKey p.workers.size = i <;> simp [hi]

theorem plan_routing {i : Nat} (hi : i < p.workers.size) (s : Span) (xs : List Input) :
    p.plan (p.routing [s.signed p.digest]) xs i = p.plan {} (.span s :: xs) i := by
  rw [plan_nil, routing_singleton, plan, Call.operations,
    filter_filterMap_of_nodup List.nodup_range (List.mem_range.mpr hi)]
  · by_cases hs : partitionOf (s.signed p.digest).windowKey p.workers.size = i <;>
      simp [hs, Input.shares, Input.share, Input.signed, Input.eventTime, Call.announced,
        Command.operations]
  · intro j x hx
    split at hx
    · exact (congrArg Prod.fst (Option.some.inj hx)).symm
    · simp at hx

theorem Foretells.next {x : Input} (h : p.Foretells {} (x :: xs) e) :
    (p.begin x.request).1.Foretells (p.begin x.request).2 xs e := by
  cases x with
  | time t =>
    refine h.of_workers_eq rfl rfl rfl broadcast_sends ?_ rfl rfl
    intro i hi
    exact plan_broadcast (p := p.raise t) hi t xs
  | span s =>
    have hbegin : p.begin (.ingest [s]) = ({ p with shared := p.shared.count .receivedSpans 1 },
        p.routing [s.signed p.digest]) := by
      simp only [begin, h.keeping, Bool.false_eq_true, if_false]
      rfl
    rw [Input.request, hbegin]
    refine h.of_workers_eq rfl rfl rfl ?_ ?_ rfl rfl
    · intro x hx
      rw [routing_singleton] at hx
      obtain ⟨i, hi, hx⟩ := List.mem_filterMap.mp hx
      split at hx
      · obtain rfl := Option.some.inj hx
        exact ⟨List.mem_range.mp hi, trivial⟩
      · simp at hx
    · exact fun i hi => plan_routing hi s xs

theorem Foretells.stepWorker? {i : Nat} (h : p.Foretells call xs e) (hq : p.stepWorker? i = some q) :
    q.Foretells call xs e := by
  obtain ⟨hplain, hreaches⟩ := stepWorker?_keeps h.plain h.reaches hq
  obtain ⟨w, w', shared, hw, -, -, -, -, -, -, hdigest, hdiscard, hwatermark⟩ :=
    stepWorker?_eq_some hq
  have hsize : q.workers.size = p.workers.size := hreaches.size.trans h.reaches.size.symm
  have hplan : q.plan call xs = p.plan call xs := by
    funext i
    rw [plan, plan, hwatermark, hsize, hdigest]
  exact ⟨hplain, hdiscard.trans h.keeping, hsize ▸ h.sends, hplan ▸ hreaches⟩

/-! ### Nothing left to do -/

/-- What is so of every worker in its place is so in their order. -/
theorem Plain.map_workers {α : Type} {f : Worker → α} {g : Nat → α} (h : p.Plain)
    (hf : ∀ w ∈ p.workers, f w = g w.partition) :
    p.workers.toList.map f = (List.range p.workers.size).map g := by
  apply List.ext_getElem?
  intro i
  rw [List.getElem?_map, List.getElem?_map, Array.getElem?_toList]
  cases hw : p.workers[i]? with
  | none =>
    have hle := Array.getElem?_eq_none_iff.mp hw
    rw [List.getElem?_eq_none (by simpa using hle)]
    rfl
  | some w =>
    have hlt := (Array.getElem?_eq_some_iff.mp hw).1
    rw [List.getElem?_range hlt, Option.map_some, Option.map_some, hf w (Array.mem_of_getElem? hw),
      h.partition_eq i w hw]

/-- A pipeline has got there when its workers have nothing left to do and nothing comes. -/
theorem Foretells.done (h : p.Foretells {} [] e) (hidle : ∀ w ∈ p.workers, w.idle = true) :
    p.shared.store.traces.toList.Perm e.traces ∧ p.shared.counters = e.counters ∧
      (p.workers.toList.flatMap fun w => w.assembler.slots)
        = (List.range e.size).flatMap fun i => (e.assembler i).slots := by
  have hrest : ∀ w ∈ p.workers, w.closed = [] ∧
      w.outcome (p.plan {} [] w.partition) = (w.assembler, {}) := by
    intro w hw
    have := hidle w hw
    simp only [Worker.idle, Bool.and_eq_true, List.isEmpty_iff] at this
    refine ⟨this.1, ?_⟩
    rw [Worker.outcome, this.2]
    rfl
  have hunsaved : p.unsaved (p.plan {} []) = [] := by
    refine List.flatMap_eq_nil_iff.mpr fun w hw => ?_
    obtain ⟨hclosed, houtcome⟩ := hrest w (Array.mem_toList_iff.mp hw)
    rw [hclosed, houtcome]
    rfl
  have hunsaid : p.unsaid (p.plan {} []) = [] := by
    refine List.flatMap_eq_nil_iff.mpr fun w hw => ?_
    rw [(hrest w (Array.mem_toList_iff.mp hw)).2]
  have htraces := h.reaches.traces
  have hcounters := h.reaches.counters
  rw [hunsaved, List.map_nil, List.append_nil] at htraces
  rw [hunsaved, hunsaid] at hcounters
  refine ⟨htraces, hcounters, ?_⟩
  have hslots : p.workers.toList.map (fun w => w.assembler.slots)
      = (List.range p.workers.size).map fun i => (e.assembler i).slots := by
    refine h.plain.map_workers fun w hw => ?_
    rw [← h.reaches.assemblers w hw, (hrest w hw).2]
  rw [h.reaches.size] at hslots
  rw [List.flatMap_def, List.flatMap_def, hslots]

end Pipeline

/-! ### Schedules -/

/-- A caller that is busy with a call and has inputs to pass on after it. -/
def Caller.Passes (call : Call) (xs : List Input) (c : Caller) : Prop :=
  c.script = xs.map Input.request ∧
    (c.task = none ∧ call = {} ∨ ∃ request, c.task = some (.sending request none call))

theorem Caller.Passes.step {c : Caller} {call : Call} {xs : List Input} {p : Pipeline Store}
    {e : Prospect} (hc : c.Passes call xs) (h : p.Foretells call xs e) :
    ∃ call xs, (c.step p).1.Passes call xs ∧ (c.step p).2.Foretells call xs e := by
  obtain ⟨hscript, ⟨htask, rfl⟩ | ⟨request, htask⟩⟩ := hc
  · cases xs with
    | nil =>
      rw [List.map_nil] at hscript
      have hstep : c.step p = (c, p) := by
        simp only [Caller.step, htask, hscript]
      rw [hstep]
      exact ⟨{}, [], ⟨hscript, .inl ⟨htask, rfl⟩⟩, h⟩
    | cons x xs =>
      have hticket : p.ticket? x.request = none := by cases x <;> rfl
      have hstep : c.step p
          = ({ c with
                script := xs.map Input.request
                task := some (.sending x.request none (p.begin x.request).2) },
            (p.begin x.request).1) := by
        simp only [Caller.step, htask, hscript, List.map_cons, hticket]
      rw [hstep]
      exact ⟨_, xs, ⟨rfl, .inr ⟨_, rfl⟩⟩, h.next⟩
  · obtain ⟨rest, q, hq, hforetells⟩ := h.stepCall
    cases rest with
    | none =>
      have hstep : c.step p = (c.answered request (.ok []), q) := by
        simp only [Caller.step, htask, hq]
      rw [hstep]
      exact ⟨{}, xs, ⟨hscript, .inl ⟨rfl, rfl⟩⟩, hforetells⟩
    | some rest =>
      have hstep : c.step p = ({ c with task := some (.sending request none rest) }, q) := by
        simp only [Caller.step, htask, hq]
      rw [hstep]
      exact ⟨rest, xs, ⟨hscript, .inr ⟨request, rfl⟩⟩, hforetells⟩

namespace System
variable {s : System Store} {e : Prospect}

/-- Where a system gets to whose only caller passes inputs on, one after the other. -/
def Foretells (e : Prospect) (s : System Store) : Prop :=
  ∃ c call xs, s.callers = [c] ∧ c.Passes call xs ∧ s.pipeline.Foretells call xs e

theorem Foretells.move (h : s.Foretells e) (actor : Actor) : (s.move actor).Foretells e := by
  obtain ⟨c, call, xs, hcallers, hpasses, hpipeline⟩ := h
  cases actor with
  | worker i =>
    simp only [System.move]
    split
    · exact ⟨c, call, xs, hcallers, hpasses, hpipeline⟩
    · next hq => exact ⟨c, call, xs, hcallers, hpasses, hpipeline.stepWorker? hq⟩
  | caller j =>
    obtain ⟨call', xs', hpasses', hpipeline'⟩ := hpasses.step hpipeline
    simp only [System.move, hcallers]
    cases j with
    | zero => exact ⟨_, call', xs', rfl, hpasses', hpipeline'⟩
    | succ j => exact ⟨c, call, xs, hcallers, hpasses, hpipeline⟩

/-- No schedule changes where a system gets to. -/
theorem Foretells.run (h : s.Foretells e) (schedule : List Actor) :
    (s.run schedule).Foretells e := by
  induction schedule generalizing s with
  | nil => exact h
  | cons actor schedule ih => exact ih (h.move actor)

/-- When nothing is left to do, the system is where it was to get. -/
theorem Foretells.drained (h : s.Foretells e) (hdrained : s.Drained) :
    s.pipeline.shared.store.traces.toList.Perm e.traces ∧
      s.pipeline.shared.counters = e.counters ∧
      (s.pipeline.workers.toList.flatMap fun w => w.assembler.slots)
        = (List.range e.size).flatMap fun i => (e.assembler i).slots := by
  obtain ⟨c, call, xs, hcallers, ⟨hscript, htask⟩, hpipeline⟩ := h
  obtain ⟨hcaller, hidle⟩ := hdrained
  obtain ⟨hnone, hdone⟩ := hcaller c (by simp [hcallers])
  obtain rfl : xs = [] := by simpa [hdone] using hscript.symm
  obtain rfl : call = {} := by
    rcases htask with ⟨-, rfl⟩ | ⟨request, h⟩
    · rfl
    · simp [hnone] at h
  exact hpipeline.done hidle

end System
end CallTrace
