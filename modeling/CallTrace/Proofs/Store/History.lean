import CallTrace.Store.Repository
import Mathlib.Algebra.BigOperators.Finprod
import Mathlib.Data.List.DropRight
import Mathlib.Data.List.Induction

/-! # What a store holds

A store is used by saving, deleting, cloning and asking (`Store.Operation`).  Each operation comes
down to some writes, a clone to one for each trace that the log of its source has at the moment, so a
history of operations tells of a list of writes (`Store.writes`) without any store.  What was saved
under a token since it was last deleted is its log (`Store.logOf`).

Operations never fail, and after any history a store is what replaying the writes makes of an empty
one (`Store.run_eq_replay`).  So every question is answered from the log of its token, and the size
is the sum over all logs (`Store.answers_from_logs`). -/

namespace CallTrace.Store

/-! ### Operations -/

/-- A question about one landscape. -/
inductive Query where
  | all (token : String)
  | byTraceId (token traceId : String)
  | byTime (token : String) (first last : Timestamp)
deriving DecidableEq, Repr

inductive Operation where
  | save (t : Trace)
  | delete (token : String)
  | clone (target source : String)
  | ask (q : Query)
deriving DecidableEq, Repr

inductive Answer where
  | done
  | copied (count : Nat)
  | found (traces : List Trace)
deriving DecidableEq, Repr

namespace Query

def token : Query → String
  | all token => token
  | byTraceId token _ => token
  | byTime token _ _ => token

/-- Which traces of the log are asked for. -/
def selects : Query → Trace → Bool
  | all _, _ => true
  | byTraceId _ traceId, t => t.traceId = traceId
  | byTime _ first last, t => first ≤ t.startTime ∧ t.startTime ≤ last

def answer (s : Store) : Query → Except StoreFault (List Trace)
  | all token => Repository.getAll token s
  | byTraceId token traceId => Repository.getByTraceId token traceId s
  | byTime token first last => Repository.getByTime token first last s

theorem answer_eq (q : Query) (s : Store) :
    q.answer s = .ok ((s.getAll q.token).filter q.selects) := by
  cases q with
  | all token => exact congrArg Except.ok (List.filter_eq_self.mpr fun _ _ => rfl).symm
  | byTraceId token traceId => rfl
  | byTime token first last => rfl

end Query

def perform (s : Store) : Operation → Except StoreFault Answer × Store
  | .save t =>
    let (result, s) := Repository.save t s
    (result.map fun () => .done, s)
  | .delete token =>
    let (result, s) := Repository.deleteLandscape token s
    (result.map fun () => .done, s)
  | .clone target source =>
    let o := Repository.cloneAll target source s
    (o.result.map .copied, o.store)
  | .ask q => ((q.answer s).map .found, s)

/-- The store after some operations, at first empty. -/
def run (ops : List Operation) : Store := ops.foldl (fun s op => (s.perform op).2) {}

theorem run_append_singleton (ops : List Operation) (op : Operation) :
    run (ops ++ [op]) = ((run ops).perform op).2 := by
  simp [run]

/-! ### Writes -/

inductive Write where
  | saved (t : Trace)
  | deleted (token : String)
deriving DecidableEq, Repr

namespace Write

def apply (s : Store) : Write → Store
  | saved t => s.save t
  | deleted token => s.deleteLandscape token

/-- The trace that a write brings under a token. -/
def trace? (token : String) : Write → Option Trace
  | saved t => if t.landscapeToken = token then some t else none
  | deleted _ => none

end Write

/-- What was saved under a token since it was last deleted. -/
def logOf (token : String) (ws : List Write) : List Trace :=
  (ws.rtakeWhile (· ≠ .deleted token)).filterMap (Write.trace? token)

/-- The writes that an operation comes down to after some others. -/
def Operation.writes (before : List Write) : Operation → List Write
  | save t => [.saved t]
  | delete token => [.deleted token]
  | clone target source => (logOf source before).map fun t => .saved (t.relabel target)
  | ask _ => []

/-- The token that an operation writes to. -/
def Operation.target? : Operation → Option String
  | save t => some t.landscapeToken
  | delete token => some token
  | clone target _ => some target
  | ask _ => none

/-- The writes of a history. -/
def writes (ops : List Operation) : List Write := ops.foldl (fun ws op => ws ++ op.writes ws) []

/-- The log of a token after a history. -/
def logAfter (ops : List Operation) (token : String) : List Trace := logOf token (writes ops)

theorem writes_append_singleton (ops : List Operation) (op : Operation) :
    writes (ops ++ [op]) = writes ops ++ op.writes (writes ops) := by
  simp [writes]

/-! ### Logs -/

section
variable {token : String} {ws : List Write} {s : Store}

theorem logOf_append_saved (t : Trace) : logOf token (ws ++ [.saved t])
    = if t.landscapeToken = token then logOf token ws ++ [t] else logOf token ws := by
  rw [logOf, List.rtakeWhile_concat_pos _ _ _ (by simp), List.filterMap_append, logOf]
  by_cases h : t.landscapeToken = token <;> simp [Write.trace?, h]

theorem logOf_append_deleted (deleted : String) : logOf token (ws ++ [.deleted deleted])
    = if token = deleted then [] else logOf token ws := by
  by_cases h : token = deleted
  · subst h
    rw [logOf, List.rtakeWhile_concat_neg _ _ _ (by simp), List.filterMap_nil, if_pos rfl]
  · rw [logOf, List.rtakeWhile_concat_pos _ _ _ (by simpa using Ne.symm h), List.filterMap_append,
      if_neg h]
    simp [logOf, Write.trace?]

theorem landscapeToken_of_mem_logOf {t : Trace} (h : t ∈ logOf token ws) :
    t.landscapeToken = token := by
  obtain ⟨w, -, hw⟩ := List.mem_filterMap.mp h
  cases w with
  | saved t' =>
    obtain ⟨htoken, heq⟩ := Option.ite_none_right_eq_some.mp hw
    exact Option.some.inj heq ▸ htoken
  | deleted => cases hw

theorem getAll_apply (w : Write) (h : s.getAll token = logOf token ws) :
    (w.apply s).getAll token = logOf token (ws ++ [w]) := by
  cases w with
  | saved t => rw [Write.apply, getAll_save, logOf_append_saved, h]
  | deleted deleted => rw [Write.apply, getAll_deleteLandscape, logOf_append_deleted, h]

/-- The store that some writes make. -/
def replay (ws : List Write) : Store := ws.foldl Write.apply {}

theorem getAll_replay (token : String) (ws : List Write) :
    (replay ws).getAll token = logOf token ws := by
  induction ws using List.reverseRecOn with
  | nil => rfl
  | append_singleton ws w ih =>
    rw [replay, List.foldl_append]
    exact getAll_apply w ih

end

/-! ### Histories -/

/-- Copies are saved one after the other. -/
theorem saveCopies_eq (target : String) (traces : List Trace) (s : Store) :
    (Repository.saveCopies target traces s).result = .ok () ∧
      (Repository.saveCopies target traces s).store
        = (traces.map fun t => Write.saved (t.relabel target)).foldl Write.apply s := by
  induction traces generalizing s with
  | nil => exact ⟨rfl, rfl⟩
  | cons t traces ih => exact ih (s.save (t.relabel target))

theorem cloneAll_eq (target source : String) (s : Store) :
    (Repository.cloneAll target source s).result = .ok (s.getAll source).length ∧
      (Repository.cloneAll target source s).store
        = ((s.getAll source).map fun t => Write.saved (t.relabel target)).foldl Write.apply s := by
  obtain ⟨hresult, hstore⟩ := saveCopies_eq target (s.getAll source) s
  refine ⟨?_, hstore⟩
  show Except.map _ (Repository.saveCopies target (s.getAll source) s).result = _
  rw [hresult]
  rfl

/-- What an operation makes of a store is what its writes make of it. -/
theorem perform_snd {s : Store} {ws : List Write} (h : ∀ token, s.getAll token = logOf token ws)
    (op : Operation) : (s.perform op).2 = (op.writes ws).foldl Write.apply s := by
  cases op with
  | save t => rfl
  | delete token => rfl
  | clone target source =>
    rw [Operation.writes, ← h]
    exact (cloneAll_eq target source s).2
  | ask q => rfl

theorem run_eq_replay (ops : List Operation) : run ops = replay (writes ops) := by
  induction ops using List.reverseRecOn with
  | nil => rfl
  | append_singleton ops op ih =>
    rw [run_append_singleton, writes_append_singleton, ih]
    conv_rhs => rw [replay, List.foldl_append]
    exact perform_snd (fun token => getAll_replay token _) op

theorem getAll_run (token : String) (ops : List Operation) :
    (run ops).getAll token = logAfter ops token := by
  rw [run_eq_replay, getAll_replay, logAfter]

/-- An operation leaves the logs that it does not write to. -/
theorem logOf_append_writes {token : String} (ws : List Write) {op : Operation}
    (h : op.target? ≠ some token) : logOf token (ws ++ op.writes ws) = logOf token ws := by
  cases op with
  | save t => rw [Operation.writes, logOf_append_saved, if_neg (by simpa [Operation.target?] using h)]
  | delete deleted =>
    rw [Operation.writes, logOf_append_deleted,
      if_neg fun heq => h (congrArg some heq.symm)]
  | clone target source =>
    have hne : ∀ t : Trace, (t.relabel target).landscapeToken ≠ token := fun _ heq =>
      h (congrArg some heq)
    rw [Operation.writes]
    induction logOf source ws using List.reverseRecOn with
    | nil => simp
    | append_singleton traces t ih =>
      rw [List.map_append, List.map_singleton, ← List.append_assoc, logOf_append_saved,
        if_neg (hne t), ih]
  | ask q => rw [Operation.writes, List.append_nil]

/-! ### Size -/

/-- The tokens of the stored traces. -/
def tokens (s : Store) : Finset String := (s.traces.toList.map Trace.landscapeToken).toFinset

theorem length_getAll (s : Store) (token : String) :
    (s.getAll token).length = (s.traces.toList.map Trace.landscapeToken).count token := by
  rw [getAll, ← List.countP_eq_length_filter, List.count, List.countP_map]
  exact List.countP_congr fun t _ => by simp

theorem support_length_getAll (s : Store) :
    (Function.support fun token => (s.getAll token).length) ⊆ s.tokens := by
  intro token htoken
  rw [Function.mem_support, length_getAll] at htoken
  exact List.mem_toFinset.mpr (List.count_pos_iff.mp (Nat.pos_of_ne_zero htoken))

theorem size_eq_finsum (s : Store) : s.size = ∑ᶠ token, (s.getAll token).length := by
  rw [finsum_eq_sum_of_support_subset _ s.support_length_getAll]
  simp only [length_getAll]
  rw [tokens, List.sum_toFinset_count_eq_length, List.length_map, size, Array.length_toList]

/-! ### Answers -/

/-- No trace starts in an interval that ends before it begins. -/
theorem selects_byTime_of_lt {token : String} {first last : Timestamp} (h : last < first) (t : Trace) :
    (Query.byTime token first last).selects t = false := by
  rw [Query.selects, decide_eq_false_iff_not]
  rintro ⟨hfirst, hlast⟩
  rw [Int64.lt_iff_toInt_lt] at h
  rw [Int64.le_iff_toInt_le] at hfirst hlast
  omega

/-- After any history no operation fails, and whatever is asked is told from the log of its token:
the traces saved under it, directly or by a clone, since it was last deleted.  The size counts all
logs, and an operation changes no answer about another token than it writes to. -/
theorem answers_from_logs (ops : List Operation) :
    let s := run ops
    (∀ token, Repository.getAll token s = .ok (logAfter ops token) ∧
      ∀ t ∈ logAfter ops token, t.landscapeToken = token) ∧
    (∀ token traceId, Repository.getByTraceId token traceId s
      = .ok ((logAfter ops token).filter fun t => t.traceId = traceId)) ∧
    (∀ token first last, Repository.getByTime token first last s
        = .ok ((logAfter ops token).filter fun t => first ≤ t.startTime ∧ t.startTime ≤ last) ∧
      (last < first → Repository.getByTime token first last s = .ok [])) ∧
    ({token | logAfter ops token ≠ []}.Finite ∧
      s.size = ∑ᶠ token, (logAfter ops token).length) ∧
    (∀ op, (s.perform op).1 = .ok (match op with
      | .clone _ source => .copied (logAfter ops source).length
      | .ask q => .found ((logAfter ops q.token).filter q.selects)
      | _ => .done)) ∧
    ∀ (op : Operation) (q : Query), op.target? ≠ some q.token → q.answer (s.perform op).2 = q.answer s := by
  intro s
  have hlog : ∀ token, s.getAll token = logAfter ops token := fun token => getAll_run token ops
  have hanswer : ∀ q : Query, q.answer s = .ok ((logAfter ops q.token).filter q.selects) := fun q => by
    rw [q.answer_eq, hlog]
  refine ⟨fun token => ⟨congrArg Except.ok (hlog token), fun t => landscapeToken_of_mem_logOf⟩,
    fun token traceId => hanswer (.byTraceId token traceId), fun token first last => ⟨?_, fun h => ?_⟩,
    ⟨?_, ?_⟩, fun op => ?_, fun op q hq => ?_⟩
  · exact hanswer (.byTime token first last)
  · refine (hanswer (.byTime token first last)).trans (congrArg Except.ok ?_)
    exact List.filter_eq_nil_iff.mpr fun t _ => by simp [selects_byTime_of_lt h]
  · refine s.tokens.finite_toSet.subset fun token htoken => s.support_length_getAll ?_
    rwa [Function.mem_support, hlog, Ne, List.length_eq_zero_iff]
  · rw [s.size_eq_finsum]
    simp only [hlog]
  · cases op with
    | save t => rfl
    | delete token => rfl
    | clone target source =>
      show Except.map _ _ = _
      rw [(cloneAll_eq target source s).1, hlog]
      rfl
    | ask q =>
      show Except.map _ _ = _
      rw [hanswer]
      rfl
  · rw [q.answer_eq, q.answer_eq, hlog]
    show Except.ok ((((run ops).perform op).2.getAll q.token).filter _) = _
    rw [← run_append_singleton, getAll_run, logAfter, writes_append_singleton,
      logOf_append_writes _ hq, logAfter]

/-- A landscape is cloned into another and that one into itself, then deleted and used again. -/
theorem answers_from_logs_after_clones :
    let a : Trace := {
      landscapeToken := "a", traceId := "1", startTime := 5,
      spans := [{ landscapeToken := "a", traceId := "1", spanId := "r" }] }
    let b : Trace := { landscapeToken := "b", traceId := "2", startTime := 7 }
    let ops : List Operation :=
      [.save a, .save b, .clone "b" "a", .clone "b" "b", .delete "a", .save a]
    let s := run ops
    Repository.getAll "a" s = .ok [a] ∧
    Repository.getAll "b" s = .ok [b, a.relabel "b", b, a.relabel "b"] ∧
    Repository.getByTraceId "b" "1" s = .ok [a.relabel "b", a.relabel "b"] ∧
    Repository.getByTime "b" 6 7 s = .ok [b, b] ∧
    (5 : Timestamp) < 7 ∧ Repository.getByTime "b" 7 5 s = .ok [] ∧
    (Operation.delete "a").target? ≠ some "b" ∧
      Repository.getAll "b" (s.perform (.delete "a")).2 = Repository.getAll "b" s := by
  intro a b ops s
  obtain ⟨hall, hid, htime, -, -, hothers⟩ := answers_from_logs ops
  have hlog : logAfter ops "a" = [a] ∧
      logAfter ops "b" = [b, a.relabel "b", b, a.relabel "b"] := by decide
  refine ⟨?_, ?_, ?_, ?_, by decide, (htime "b" 7 5).2 (by decide), by decide, ?_⟩
  · rw [(hall "a").1, hlog.1]
  · rw [(hall "b").1, hlog.2]
  · rw [hid, hlog.2]
    decide
  · rw [(htime "b" 6 7).1, hlog.2]
    decide
  · exact hothers (.delete "a") (.all "b") (by decide)

end CallTrace.Store
