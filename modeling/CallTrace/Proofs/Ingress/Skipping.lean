import CallTrace.Ingress.Connection
import CallTrace.Proofs.Pipeline.Requests
import CallTrace.Proofs.Record.RoundTrip
import CallTrace.Proofs.Text.Utf8

/-! # Which lines of a connection count

The records of a stream are taken one after the other, and lines without one make no difference but in
the log (`Ingress.takeLines_sameButLog`).  A span is always taken while the workers run
(`Pipeline.ingest_ok`), and an event that fails stops nothing.

Only a line that is no text does make a difference: it ends the connection, and what comes after it is
lost.  So all records of a stream are taken if and only if nothing comes after such a line but
announcements of new landscapes, which need nothing (`Ingress.takes_records_until_undecodable`). -/

namespace CallTrace

namespace Pipeline
variable {σ : Type} {p q r : Pipeline σ}

/-! ### What is written to the log -/

/-- Whether two pipelines are the same but for their logs. -/
def SameButLog (p q : Pipeline σ) : Prop :=
  ∃ log, q = { p with shared := { p.shared with log := log } }

theorem call_eq (p : Pipeline σ) (c : Call) :
    p.call c = match p.stepCall c with
      | (.error e, q) => (.error e, q)
      | (.ok none, q) => (.ok (), q)
      | (.ok (some d), q) => q.call d := by
  rw [call]
  split <;> next h => simp only [h]

namespace SameButLog

theorem refl (p : Pipeline σ) : SameButLog p p := ⟨p.shared.log, rfl⟩

theorem symm (h : SameButLog p q) : SameButLog q p := by
  obtain ⟨log, rfl⟩ := h
  exact ⟨p.shared.log, rfl⟩

theorem trans (h : SameButLog p q) (h' : SameButLog q r) : SameButLog p r := by
  obtain ⟨log, rfl⟩ := h
  obtain ⟨log', rfl⟩ := h'
  exact ⟨log', rfl⟩

theorem say (h : SameButLog p q) (line : LogLine) : SameButLog p (q.say line) :=
  h.trans ⟨_, rfl⟩

theorem workers (h : SameButLog p q) : q.workers = p.workers := by
  obtain ⟨log, rfl⟩ := h
  rfl

theorem begin (h : SameButLog p q) (request : Request) :
    (q.begin request).2 = (p.begin request).2 ∧
      (p.begin request).1.SameButLog (q.begin request).1 := by
  obtain ⟨log, rfl⟩ := h
  cases request <;> exact ⟨rfl, log, rfl⟩

/-- No step of a call looks at the log. -/
theorem stepCall (h : SameButLog p q) (c : Call) :
    ∃ q', q.stepCall c = ((p.stepCall c).1, q') ∧ (p.stepCall c).2.SameButLog q' := by
  obtain ⟨log, rfl⟩ := h
  obtain ⟨_ | ⟨⟨i, command⟩, sends⟩, announcement⟩ := c
  · cases announcement with
    | none => exact ⟨_, rfl, log, rfl⟩
    | some time =>
      simp only [Pipeline.stepCall]
      split
      · exact ⟨_, rfl, _, rfl⟩
      · exact ⟨_, rfl, log, rfl⟩
  · simp only [Pipeline.stepCall, send?]
    cases p.workers[i]? with
    | none => exact ⟨_, rfl, log, rfl⟩
    | some w =>
      by_cases hrunning : w.running = true
      · simp only [hrunning, if_true]
        exact ⟨_, rfl, log, rfl⟩
      · simp only [hrunning, Bool.false_eq_true, if_false]
        exact ⟨_, rfl, log, rfl⟩

theorem call (h : SameButLog p q) (c : Call) :
    (q.call c).1 = (p.call c).1 ∧ (p.call c).2.SameButLog (q.call c).2 := by
  fun_induction p.call c generalizing q with
  | case1 p c e p' hp =>
    obtain ⟨q', hq, hsame⟩ := h.stepCall c
    rw [hp] at hq hsame
    rw [call_eq, hq]
    exact ⟨rfl, hsame⟩
  | case2 p c p' hp =>
    obtain ⟨q', hq, hsame⟩ := h.stepCall c
    rw [hp] at hq hsame
    rw [call_eq, hq]
    exact ⟨rfl, hsame⟩
  | case3 p c d p' hp ih =>
    obtain ⟨q', hq, hsame⟩ := h.stepCall c
    rw [hp] at hq hsame
    rw [call_eq, hq]
    exact ih hsame

end SameButLog

/-! ### Calls to workers that run -/

/-- What holds across every step of a call holds across the call. -/
theorem call_induction {R : Pipeline σ → Pipeline σ → Prop}
    (htrans : ∀ p q r, R p q → R q r → R p r) (hstep : ∀ p c, R p (p.stepCall c).2)
    (p : Pipeline σ) (c : Call) : R p (p.call c).2 := by
  fun_induction p.call c with
  | case1 p c e q hq => exact (congrArg Prod.snd hq) ▸ hstep p c
  | case2 p c q hq => exact (congrArg Prod.snd hq) ▸ hstep p c
  | case3 p c d q hq ih =>
    have hfirst := hstep p c
    rw [hq] at hfirst
    exact htrans _ _ _ hfirst ih

theorem sameWork_call (p : Pipeline σ) (c : Call) : SameWork p (p.call c).2 :=
  call_induction (fun _ _ _ => .trans) sameWork_stepCall p c

theorem SameWork.size_eq (h : SameWork p q) : q.workers.size = p.workers.size := by
  simpa using congrArg Array.size h.workers

theorem SameWork.running (h : SameWork p q) (hp : ∀ w ∈ p.workers, w.running = true) :
    ∀ w ∈ q.workers, w.running = true := by
  intro w hw
  obtain ⟨v, hv, e⟩ := h.exists_worker hw
  rw [e]
  exact hp v hv

/-- A call to workers that run goes on to its end. -/
theorem stepCall_ok (hp : ∀ w ∈ p.workers, w.running = true) {c : Call}
    (hc : ∀ x ∈ c.sends, x.1 < p.workers.size) :
    ∃ next, (p.stepCall c).1 = .ok next ∧ ∀ d ∈ next, ∀ x ∈ d.sends, x.1 < p.workers.size := by
  obtain ⟨_ | ⟨⟨i, command⟩, sends⟩, announcement⟩ := c
  · cases announcement with
    | none => exact ⟨none, rfl, nofun⟩
    | some time =>
      simp only [stepCall]
      split
      · refine ⟨_, rfl, fun d hd x hx => ?_⟩
        obtain rfl := Option.some.inj hd
        exact (mem_broadcast.mp hx).1
      · exact ⟨none, rfl, nofun⟩
  · have hlt : i < p.workers.size := hc _ List.mem_cons_self
    have hw := Array.getElem?_eq_getElem hlt
    obtain ⟨ready, hq⟩ := send?_of_running hw (hp _ (Array.mem_of_getElem? hw)) command
    simp only [stepCall, hq]
    refine ⟨_, rfl, fun d hd x hx => ?_⟩
    obtain rfl := Option.some.inj hd
    exact hc x (.tail _ hx)

theorem call_ok (hp : ∀ w ∈ p.workers, w.running = true) {c : Call}
    (hc : ∀ x ∈ c.sends, x.1 < p.workers.size) : (p.call c).1 = .ok () := by
  fun_induction p.call c with
  | case1 p c e p' h =>
    obtain ⟨next, hok, -⟩ := stepCall_ok hp hc
    simp [h] at hok
  | case2 => rfl
  | case3 p c d p' h ih =>
    obtain ⟨next, hok, hnext⟩ := stepCall_ok hp hc
    have hstep := p.sameWork_stepCall c
    rw [h] at hok hstep
    obtain rfl := Except.ok.inj hok
    exact ih (hstep.running hp) fun x hx => hstep.size_eq ▸ hnext d rfl x hx

theorem ingest_eq (s : Span) (p : Pipeline σ) :
    p.ingest s = (p.begin (.ingest [s])).1.call (p.begin (.ingest [s])).2 := p.ingestBatch_eq [s]

theorem sameWork_ingest (s : Span) (p : Pipeline σ) : SameWork p (p.ingest s).2 := by
  rw [ingest_eq]
  exact (p.sameWork_begin _).trans (sameWork_call _ _)

theorem ingest_ok (hp : ∀ w ∈ p.workers, w.running = true) (s : Span) : (p.ingest s).1 = .ok () := by
  have hsame := p.sameWork_begin (.ingest [s])
  rw [ingest_eq]
  exact call_ok (hsame.running hp) fun x hx =>
    hsame.size_eq ▸ (p.leaves_begin (.ingest [s])).worker_lt x hx

end Pipeline

/-! ### Records -/

/-- Whether no operation of a repository breaks down.  Any of them may fail. -/
structure Repository.Steady (σ : Type) [Repository σ] : Prop where
  save : ∀ t (s : σ), (Repository.save t s).1 ≠ .error .crashed
  deleteLandscape : ∀ token (s : σ), (Repository.deleteLandscape token s).1 ≠ .error .crashed
  getAll : ∀ token (s : σ), Repository.getAll token s ≠ .error .crashed

section
variable {σ : Type} [Repository σ]

theorem Repository.Steady.saveCopies (h : Steady σ) (target : String) (traces : List Trace) (s : σ) :
    (saveCopies target traces s).result ≠ .error .crashed := by
  induction traces generalizing s with
  | nil => exact nofun
  | cons t traces ih =>
    have hsave := h.save (t.relabel target) s
    rw [Repository.saveCopies]
    split
    · next fault s' e =>
      rw [e] at hsave
      exact fun hcrash => hsave (congrArg _ (Except.error.inj hcrash))
    · exact ih _

theorem Repository.Steady.cloneAll (h : Steady σ) (target source : String) (s : σ) :
    (cloneAll target source s).result ≠ .error .crashed := by
  unfold Repository.cloneAll
  split
  · next fault hget =>
    exact fun hcrash => h.getAll source s (hget.trans (congrArg _ (Except.error.inj hcrash)))
  · next traces hget =>
    have hcopies := h.saveCopies target traces s
    show (Repository.saveCopies target traces s).result.map _ ≠ _
    cases hresult : (Repository.saveCopies target traces s).result with
    | ok u => exact nofun
    | error fault =>
      rw [hresult] at hcopies
      exact fun hcrash => hcopies (congrArg _ (Except.error.inj hcrash))

theorem Repository.Steady.apply (h : Steady σ) (e : TokenEvent) (s : σ) :
    (e.apply s).result ≠ .error .crashed := by
  show (e.effect s).result ≠ _
  cases e with
  | created token => exact nofun
  | deleted token => exact h.deleteLandscape token s
  | cloned token clonedToken =>
    have hclone := h.cloneAll token clonedToken s
    simp only [TokenEvent.effect]
    split
    · next fault hfault =>
      exact fun hcrash => hclone (hfault.trans (congrArg _ (Except.error.inj hcrash)))
    · exact nofun

namespace Record
variable {p q : Pipeline σ}

/-- What a record is there for: its span goes into the pipeline, its event is applied to the
repository. -/
def take (p : Pipeline σ) : Record → Pipeline σ
  | span s => (p.ingest s).2
  | tokenEvent e => { p with shared := { p.shared with store := (e.apply p.shared.store).store } }

theorem sameButLog_take (h : p.SameButLog q) (r : Record) : (take p r).SameButLog (take q r) := by
  cases r with
  | span s =>
    obtain ⟨hcall, hsame⟩ := h.begin (.ingest [s])
    rw [take, take, Pipeline.ingest_eq, Pipeline.ingest_eq, hcall]
    exact (hsame.call _).2
  | tokenEvent e =>
    obtain ⟨log, rfl⟩ := h
    exact ⟨log, rfl⟩

theorem sameButLog_foldl_take (h : p.SameButLog q) (records : List Record) :
    (records.foldl take p).SameButLog (records.foldl take q) := by
  induction records generalizing p q with
  | nil => exact h
  | cons r records ih => exact ih (sameButLog_take h r)

/-- A new landscape needs nothing. -/
theorem foldl_take_created {records : List Record}
    (h : ∀ r ∈ records, ∃ token, r = .tokenEvent (.created token)) :
    records.foldl take p = p := by
  induction records with
  | nil => rfl
  | cons r records ih =>
    obtain ⟨⟨token, rfl⟩, hrecords⟩ := List.forall_mem_cons.mp h
    exact ih hrecords

theorem running_take (h : ∀ w ∈ p.workers, w.running = true) (r : Record) :
    ∀ w ∈ (take p r).workers, w.running = true := by
  cases r with
  | span s => exact (p.sameWork_ingest s).running h
  | tokenEvent e => exact h

end Record

/-! ### Lines -/

namespace Ingress
variable {p : Pipeline σ}

def Line.record? : Line → Option Record
  | record r => some r
  | _ => none

/-- What the lines of a stream are. -/
def contents (bytes : Bytes) : List Line := (lines bytes).map Line.ofBytes

/-- The canonical text of a record makes a line with that record. -/
theorem Line.ofBytes_render (r : Record) :
    ofBytes (Text.bytes (String.ofList r.render)) = record r := by
  have hblank : Text.isBlankText (String.ofList r.render) = false := by
    obtain ⟨rest, hrest⟩ : ∃ rest, r.render = '\x7b' :: rest := by cases r <;> exact ⟨_, rfl⟩
    rw [Text.isBlankText, String.toList_ofList, hrest, List.all_cons]
    rfl
  simp only [ofBytes, Text.fromUTF8?_bytes, hblank, Record.read?_render]
  rfl

/-- A record is taken and the next line read, as long as the workers run and the repository stands. -/
theorem takeLine_record (hsteady : Repository.Steady σ) (hp : ∀ w ∈ p.workers, w.running = true)
    (r : Record) : ∃ q, takeLine (.record r) p = (.reading, q) ∧ (Record.take p r).SameButLog q := by
  cases r with
  | span s =>
    have hok := Pipeline.ingest_ok hp s
    refine ⟨(p.ingest s).2, ?_, .refl _⟩
    simp only [takeLine, takeSpan]
    split
    · next q e => rw [e]
    · next q e => simp [e] at hok
  | tokenEvent e =>
    have hresult := hsteady.apply e p.shared.store
    simp only [takeLine, takeEvent]
    split
    · exact ⟨_, rfl, _, rfl⟩
    · exact ⟨_, rfl, _, rfl⟩
    · next hcrash => exact absurd hcrash hresult

/-- Up to the first line that is no text, the records of some lines are taken one after the other,
and nothing else. -/
theorem takeLines_sameButLog (hsteady : Repository.Steady σ)
    (hp : ∀ w ∈ p.workers, w.running = true) (lines : List Line) :
    ∃ q, takeLines lines p = (.closed, q) ∧
      (((lines.takeWhile (· ≠ .undecodable)).filterMap Line.record?).foldl Record.take p).SameButLog
        q := by
  induction lines generalizing p with
  | nil => exact ⟨p, rfl, .refl p⟩
  | cons line lines ih =>
    cases line with
    | blank => exact ih hp
    | malformed =>
      obtain ⟨q, hq, hsame⟩ := ih (p := p.say ⟨.warn, "Skipping malformed record"⟩) hp
      exact ⟨q, hq, (Record.sameButLog_foldl_take ((Pipeline.SameButLog.refl p).say _) _).trans hsame⟩
    | undecodable => exact ⟨_, rfl, (Pipeline.SameButLog.refl p).say _⟩
    | record r =>
      obtain ⟨p', hp', hsame⟩ := takeLine_record hsteady hp r
      obtain ⟨q, hq, hrest⟩ := ih (p := p') (hsame.workers ▸ Record.running_take hp r)
      refine ⟨q, ?_, (Record.sameButLog_foldl_take hsame _).trans hrest⟩
      rw [takeLines, hp']
      exact hq

/-- Whether a connection takes all records of a stream in their order and does nothing else, whatever
the pipeline and its repository are, as long as the workers run and the repository stands. -/
def TakesAll (bytes : Bytes) : Prop :=
  ∀ (τ : Type) [Repository τ], Repository.Steady τ → ∀ p : Pipeline τ,
    (∀ w ∈ p.workers, w.running = true) →
      (((contents bytes).filterMap Line.record?).foldl Record.take p).SameButLog (read bytes p)

/-- The records after the first line that is no text. -/
def lost (bytes : Bytes) : List Record :=
  ((contents bytes).dropWhile (· ≠ .undecodable)).filterMap Line.record?

/-- The records before that line. -/
def reached (bytes : Bytes) : List Record :=
  ((contents bytes).takeWhile (· ≠ .undecodable)).filterMap Line.record?

theorem reached_append_lost (bytes : Bytes) :
    reached bytes ++ lost bytes = (contents bytes).filterMap Line.record? := by
  rw [reached, lost, ← List.filterMap_append, List.takeWhile_append_dropWhile]

theorem read_sameButLog (hsteady : Repository.Steady σ) (hp : ∀ w ∈ p.workers, w.running = true)
    (bytes : Bytes) : ((reached bytes).foldl Record.take p).SameButLog (read bytes p) := by
  obtain ⟨q, hq, hsame⟩ := takeLines_sameButLog hsteady hp (contents bytes)
  rw [read, show (lines bytes).map Line.ofBytes = contents bytes from rfl, hq]
  exact hsame.say _

end Ingress
end

/-! ### A repository that shows every change -/

/-- A repository that counts what it is asked to change, and finds a trace in every landscape. -/
structure Tally where
  changes : Nat := 0

instance : Repository Tally where
  save _ s := (.ok (), ⟨s.changes + 1⟩)
  deleteLandscape _ s := (.ok (), ⟨s.changes + 1⟩)
  getAll _ _ := .ok [{}]
  getByTraceId _ _ _ := .ok []
  getByTime _ _ _ _ := .ok []

theorem Tally.steady : Repository.Steady Tally := ⟨nofun, nofun, nofun⟩

namespace Pipeline

/-- How many commands wait for the first worker. -/
def queued {σ : Type} (p : Pipeline σ) : Nat :=
  (p.workers[0]?.map fun w => w.inbox.length).getD 0

section
variable {σ : Type} {p q : Pipeline σ}

theorem SameButLog.queued_eq (h : p.SameButLog q) : q.queued = p.queued := by
  obtain ⟨log, rfl⟩ := h
  rfl

theorem queued_send? {i : Nat} {command : Command} (h : p.send? i command = some q) :
    q.queued = if i = 0 then p.queued + 1 else p.queued := by
  unfold send? at h
  split at h
  · simp at h
  · next w hw =>
    split at h
    · obtain rfl : _ = q := Option.some.inj h
      have hlt := (Array.getElem?_eq_some_iff.mp hw).1
      simp only [queued, Array.getElem?_setIfInBounds]
      by_cases hi : i = 0
      · subst hi
        rw [if_pos rfl, if_pos hlt, if_pos rfl, hw]
        exact List.length_append
      · rw [if_neg hi, if_neg hi]
    · simp at h

theorem queued_stepCall (p : Pipeline σ) (c : Call) : p.queued ≤ (p.stepCall c).2.queued := by
  unfold stepCall
  split
  · split
    · exact Nat.le_refl _
    · next h =>
      rw [queued_send? h]
      split <;> omega
  · split <;> exact Nat.le_refl _
  · exact Nat.le_refl _

theorem queued_call (p : Pipeline σ) (c : Call) : p.queued ≤ (p.call c).2.queued :=
  call_induction (R := fun p q => p.queued ≤ q.queued) (fun _ _ _ => Nat.le_trans)
    queued_stepCall p c

theorem discard_stepCall (p : Pipeline σ) (c : Call) : (p.stepCall c).2.discard = p.discard := by
  unfold stepCall
  split
  · split
    · rfl
    · next h =>
      unfold send? at h
      split at h
      · simp at h
      · split at h
        · obtain rfl := Option.some.inj h
          rfl
        · simp at h
  · split <;> rfl
  · rfl

theorem discard_call (p : Pipeline σ) (c : Call) : (p.call c).2.discard = p.discard :=
  call_induction (R := fun p q => q.discard = p.discard) (fun _ _ _ h h' => h'.trans h)
    discard_stepCall p c

/-- A pipeline of one worker that runs and keeps its spans. -/
structure Lone (p : Pipeline σ) : Prop where
  size : p.workers.size = 1
  running : ∀ w ∈ p.workers, w.running = true
  keeping : p.discard = false

theorem lone_initial {settings : Settings} (hpartitions : settings.partitions = 1)
    (hkeeping : settings.discard = false) (store : σ) : (initial settings store).Lone where
  size := by simp [initial, hpartitions]
  running w hw := by
    obtain ⟨i, -, rfl⟩ := Array.mem_map.mp hw
    rfl
  keeping := hkeeping

theorem Lone.of_sameWork (h : p.Lone) (hsame : SameWork p q) (hkeeping : q.discard = p.discard) :
    q.Lone :=
  ⟨hsame.size_eq.trans h.size, hsame.running h.running, hkeeping.trans h.keeping⟩

/-- A command to the only worker waits for it. -/
theorem Lone.queued_lt_call (h : p.Lone) (command : Command) (sends : List (Nat × Command))
    (announcement : Option Timestamp) :
    p.queued < (p.call ⟨(0, command) :: sends, announcement⟩).2.queued := by
  have hw := Array.getElem?_eq_getElem (h.size ▸ Nat.one_pos : 0 < p.workers.size)
  obtain ⟨q, hq⟩ : ∃ q, p.send? 0 command = some q :=
    have ⟨_, hq⟩ := send?_of_running hw (h.running _ (Array.mem_of_getElem? hw)) command
    ⟨_, hq⟩
  have hqueued : q.queued = p.queued + 1 := queued_send? hq
  have hstep : p.stepCall ⟨(0, command) :: sends, announcement⟩
      = (.ok (some ⟨sends, announcement⟩), q) := by
    simp only [stepCall, hq]
  rw [call_eq, hstep]
  exact Nat.lt_of_lt_of_le (by omega) (queued_call q _)

theorem Lone.queued_lt_ingest (h : p.Lone) (s : Span) : p.queued < (p.ingest s).2.queued := by
  have hbegin : p.begin (.ingest [s]) = ({ p with shared := p.shared.count .receivedSpans 1 },
      p.routing [s.signed p.digest]) := by
    simp only [begin, h.keeping, Bool.false_eq_true, if_false]
    rfl
  have hpartition : partitionOf (s.signed p.digest).windowKey p.workers.size = 0 := by
    rw [h.size]
    exact Nat.lt_one_iff.mp (partitionOf_lt _ Nat.one_pos)
  rw [ingest_eq, hbegin, routing_singleton, hpartition, h.size]
  exact Lone.queued_lt_call (p := { p with shared := p.shared.count .receivedSpans 1 })
    ⟨h.size, h.running, h.keeping⟩ _ _ _

end

/-- What has come of the records that a pipeline with one worker has taken. -/
def tally (p : Pipeline Tally) : Nat := p.shared.store.changes + p.queued

theorem SameButLog.tally_eq {p q : Pipeline Tally} (h : p.SameButLog q) : q.tally = p.tally := by
  obtain ⟨log, rfl⟩ := h
  rfl

end Pipeline

/-- Every record but the announcement of a new landscape shows. -/
theorem Record.tally_take {p : Pipeline Tally} (h : p.Lone) (r : Record) :
    (take p r).Lone ∧ p.tally ≤ (take p r).tally ∧
      ((∀ token, r ≠ .tokenEvent (.created token)) → p.tally < (take p r).tally) := by
  cases r with
  | span s =>
    have hsame := p.sameWork_ingest s
    have hdiscard : (p.ingest s).2.discard = p.discard := by
      rw [Pipeline.ingest_eq, Pipeline.discard_call]
      rfl
    have hlt : p.tally < (p.ingest s).2.tally := by
      have hqueued := h.queued_lt_ingest s
      rw [Pipeline.tally, Pipeline.tally, hsame.store]
      omega
    exact ⟨h.of_sameWork hsame hdiscard, Nat.le_of_lt hlt, fun _ => hlt⟩
  | tokenEvent e =>
    refine ⟨⟨h.size, h.running, h.keeping⟩, ?_⟩
    have hqueued : (take p (.tokenEvent e)).queued = p.queued := rfl
    cases e with
    | created token => exact ⟨Nat.le_refl _, fun hr => absurd rfl (hr token)⟩
    | deleted token =>
      have hstore : (take p (.tokenEvent (.deleted token))).shared.store.changes
          = p.shared.store.changes + 1 := rfl
      simp only [Pipeline.tally, hqueued, hstore]
      omega
    | cloned token clonedToken =>
      have hstore : (take p (.tokenEvent (.cloned token clonedToken))).shared.store.changes
          = p.shared.store.changes + 1 := rfl
      simp only [Pipeline.tally, hqueued, hstore]
      omega

theorem Record.tally_foldl_take {p : Pipeline Tally} (h : p.Lone) (records : List Record) :
    (records.foldl take p).Lone ∧ p.tally ≤ (records.foldl take p).tally ∧
      ((records.foldl take p).tally = p.tally →
        ∀ r ∈ records, ∃ token, r = .tokenEvent (.created token)) := by
  induction records generalizing p with
  | nil => exact ⟨h, Nat.le_refl _, nofun⟩
  | cons r records ih =>
    obtain ⟨hlone, hle, hlt⟩ := tally_take h r
    obtain ⟨hlones, hles, hcreated⟩ := ih hlone
    refine ⟨hlones, Nat.le_trans hle hles, fun heq => List.forall_mem_cons.mpr ⟨?_, ?_⟩⟩
    · by_contra hr
      have hlt := hlt fun token e => hr ⟨token, e⟩
      rw [List.foldl_cons] at heq
      omega
    · refine hcreated ?_
      rw [List.foldl_cons] at heq
      omega

/-! ### What is taken and what is lost -/

namespace Ingress

/-- A connection takes the records up to the first line that is no text, in their order, and does
nothing else.  So it takes all records if and only if nothing is after such a line but announcements
of new landscapes. -/
theorem takes_records_until_undecodable (bytes : Bytes) :
    (∀ (σ : Type) [Repository σ], Repository.Steady σ → ∀ p : Pipeline σ,
      (∀ w ∈ p.workers, w.running = true) →
        ((reached bytes).foldl Record.take p).SameButLog (read bytes p)) ∧
    (TakesAll bytes ↔ ∀ r ∈ lost bytes, ∃ token, r = .tokenEvent (.created token)) := by
  refine ⟨fun σ _ hsteady p hp => read_sameButLog hsteady hp bytes, fun htakes => ?_, ?_⟩
  -- a lone worker and a repository that counts show every record that would have been taken
  · let p : Pipeline Tally := .initial { partitions := 1 } {}
    have hp : p.Lone := Pipeline.lone_initial rfl rfl _
    have hreached := (Record.tally_foldl_take hp (reached bytes)).1
    have hall := htakes Tally Tally.steady p hp.running
    rw [← reached_append_lost, List.foldl_append] at hall
    have hsame := hall.trans (read_sameButLog Tally.steady hp.running bytes).symm
    exact (Record.tally_foldl_take hreached (lost bytes)).2.2 hsame.tally_eq.symm
  · intro hlost σ _ hsteady p hp
    rw [← reached_append_lost, List.foldl_append, Record.foldl_take_created hlost]
    exact read_sameButLog hsteady hp bytes

/-- A byte that is no text on a line of its own, and then a span.  The span is a record of the stream,
and taking it tells the worker of it; but it is never read. -/
theorem undecodable_line_loses_span :
    let span : Span :=
      { landscapeToken := "tok", traceId := "tr", spanId := "r", startTime := 0, endTime := 5 }
    let bytes : Bytes :=
      0xff :: lineFeed :: Text.bytes (String.ofList (Record.span span).render)
    ∃ p, Pipeline.start { partitions := 1 } ({} : Store) = .ok p ∧
      let records := (contents bytes).filterMap Line.record?
      records = [.span span] ∧ 0 < (records.foldl Record.take p).queued ∧
      (read bytes p).queued = 0 ∧ ¬ (records.foldl Record.take p).SameButLog (read bytes p) := by
  intro span bytes
  have hsettings : Settings.check { partitions := 1 } = .ok () := by decide
  refine ⟨_, Pipeline.start_eq hsettings _, ?_⟩
  intro records
  have hlines : lines bytes = [[0xff], Text.bytes (String.ofList (Record.span span).render)] := by
    decide +kernel
  have hcontents : contents bytes = [.undecodable, .record (.span span)] := by
    rw [contents, hlines, List.map_cons, List.map_singleton, Line.ofBytes_render]
    rfl
  have hrecords : records = [.span span] := by
    simp only [records, hcontents]
    rfl
  have htaken : 0 < (records.foldl Record.take
      (.initial { partitions := 1 } ({} : Store))).queued := by
    rw [hrecords]
    exact Nat.lt_of_le_of_lt (Nat.zero_le _)
      ((Pipeline.lone_initial rfl rfl _).queued_lt_ingest span)
  have hread : (read bytes (.initial { partitions := 1 } ({} : Store))).queued = 0 := by
    rw [read, show (lines bytes).map Line.ofBytes = _ from hcontents]
    decide +kernel
  refine ⟨hrecords, htaken, hread, fun hsame => ?_⟩
  rw [← hsame.queued_eq, hread] at htaken
  exact Nat.lt_irrefl 0 htaken

end Ingress
end CallTrace
