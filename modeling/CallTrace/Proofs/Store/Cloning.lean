import CallTrace.Store.Events

/-! # What a clone leaves behind

A landscape is cloned by saving copies of the traces that its log held at the beginning, one after the
other.  Whether a save fails is up to the plan of the store, which may go by the position of the save
in any way (`FaultyStore.faultAt`).  Up to the first fault all copies are saved
(`FaultyStore.saveCopies_of_faultless`), and the one that meets it is the last that is tried
(`FaultyStore.saveCopies_of_fault`).

So the copies before the first fault are what is left behind, in the log of the target and in no other,
also if a landscape is cloned into itself (`FaultyStore.cloneAll_up_to_fault`). -/

namespace CallTrace.FaultyStore
variable {s : FaultyStore} {t : Trace} {copies traces : List Trace}

/-- The store after traces were saved one after the other. -/
def saveAll (copies : List Trace) (s : FaultyStore) : FaultyStore :=
  { s with
    store := copies.foldl (fun store t => store.save t) s.store
    attempts := s.attempts + copies.length
    saved := s.saved + copies.length }

/-- The store after a save that met a fault. -/
def tried (s : FaultyStore) : FaultyStore := { s with attempts := s.attempts + 1 }

/-- The fault that the trace at a position meets, if those before it are saved. -/
def faultAt (s : FaultyStore) (copies : List Trace) (k : Nat) : Option StoreFault :=
  copies[k]?.bind (s.plan (s.attempts + k) (s.saved + k))

theorem faultAt_succ (k : Nat) :
    s.faultAt (t :: copies) (k + 1) = (s.saveAll [t]).faultAt copies k := by
  have hattempts : s.attempts + (k + 1) = s.attempts + 1 + k := by omega
  have hsaved : s.saved + (k + 1) = s.saved + 1 + k := by omega
  rw [faultAt, hattempts, hsaved]
  rfl

theorem lt_of_faultAt {k : Nat} {fault : StoreFault} (h : s.faultAt copies k = some fault) :
    k < copies.length := by
  rcases Nat.lt_or_ge k copies.length with hk | hk
  · exact hk
  · rw [faultAt, List.getElem?_eq_none hk] at h
    cases h

theorem saveAll_cons : s.saveAll (t :: copies) = (s.saveAll [t]).saveAll copies := by
  have hattempts : s.attempts + (copies.length + 1) = s.attempts + 1 + copies.length := by omega
  have hsaved : s.saved + (copies.length + 1) = s.saved + 1 + copies.length := by omega
  rw [saveAll, List.length_cons, hattempts, hsaved]
  rfl

theorem online?_of_online (online : s.offline = false) : s.online? = .ok () := by
  rw [online?, online]
  rfl

theorem save_of_faultless (online : s.offline = false) (h : s.plan s.attempts s.saved t = none) :
    Repository.save t s = (.ok (), s.saveAll [t]) := by
  show save t s = _
  simp only [save, online?_of_online online, h]
  rfl

theorem save_of_fault (online : s.offline = false) {fault : StoreFault}
    (h : s.plan s.attempts s.saved t = some fault) :
    Repository.save t s = (.error fault, s.tried) := by
  show save t s = _
  simp only [save, online?_of_online online, h]
  rfl

/-! ### Copies in a row -/

section
variable {target : String}

theorem saveCopies_of_faultless (online : s.offline = false)
    (h : ∀ k, s.faultAt (traces.map (Trace.relabel target)) k = none) :
    (Repository.saveCopies target traces s).result = .ok () ∧
      (Repository.saveCopies target traces s).store
        = s.saveAll (traces.map (Trace.relabel target)) := by
  induction traces generalizing s with
  | nil => exact ⟨rfl, rfl⟩
  | cons t traces ih =>
    have hsave := save_of_faultless online (h 0)
    rw [List.map_cons, saveAll_cons]
    simp only [Repository.saveCopies, hsave]
    exact ih (s := s.saveAll [t.relabel target]) online fun k =>
      (faultAt_succ k).symm.trans (h (k + 1))

theorem saveCopies_of_fault (online : s.offline = false) {k : Nat} {fault : StoreFault}
    (hk : s.faultAt (traces.map (Trace.relabel target)) k = some fault)
    (hbefore : ∀ i < k, s.faultAt (traces.map (Trace.relabel target)) i = none) :
    (Repository.saveCopies target traces s).result = .error fault ∧
      (Repository.saveCopies target traces s).store
        = (s.saveAll ((traces.map (Trace.relabel target)).take k)).tried := by
  induction traces generalizing s k with
  | nil => simp [faultAt] at hk
  | cons t traces ih =>
    cases k with
    | zero =>
      have hsave := save_of_fault online hk
      simp only [Repository.saveCopies, hsave, List.take_zero, true_and]
      rfl
    | succ k =>
      have hsave := save_of_faultless online (hbefore 0 (by omega))
      rw [List.map_cons, List.take_succ_cons, saveAll_cons]
      simp only [Repository.saveCopies, hsave]
      exact ih (s := s.saveAll [t.relabel target]) online ((faultAt_succ k).symm.trans hk)
        fun i hi => (faultAt_succ i).symm.trans (hbefore (i + 1) (by omega))

end

/-! ### Logs -/

theorem getAll_saveAll (token : String) : (s.saveAll copies).store.getAll token
    = s.store.getAll token ++ copies.filter fun t => t.landscapeToken = token := by
  induction copies generalizing s with
  | nil => simp [saveAll]
  | cons t copies ih =>
    rw [saveAll_cons, ih]
    show (s.store.save t).getAll token ++ _ = _
    rw [Store.getAll_save]
    by_cases h : t.landscapeToken = token <;> simp [h]

theorem getAll_saveAll_relabel (target token : String) :
    (s.saveAll (traces.map (Trace.relabel target))).store.getAll token
      = if token = target then s.store.getAll token ++ traces.map (Trace.relabel target)
        else s.store.getAll token := by
  have htoken : ∀ t ∈ traces.map (Trace.relabel target), t.landscapeToken = target := by
    intro t ht
    obtain ⟨t, -, rfl⟩ := List.mem_map.mp ht
    rfl
  rw [getAll_saveAll]
  split
  · next h => rw [List.filter_eq_self.mpr fun t ht => by simp [htoken t ht, h]]
  · next h =>
    rw [List.filter_eq_nil_iff.mpr fun t ht => by simp [htoken t ht, Ne.symm h], List.append_nil]

/-! ### Clones -/

/-- What is left behind when of some copies the first `saved` were saved, and `tries` were tried. -/
structure Cloned (s : FaultyStore) (target : String) (copies : List Trace) (saved tries : Nat)
    (after : FaultyStore) : Prop where
  target_log : after.store.getAll target = s.store.getAll target ++ copies.take saved
  other_logs : ∀ token ≠ target, after.store.getAll token = s.store.getAll token
  saved_eq : after.saved = s.saved + saved
  attempts_eq : after.attempts = s.attempts + tries

theorem cloneAll_eq (online : s.offline = false) (target source : String) :
    (Repository.cloneAll target source s).result
        = (Repository.saveCopies target (s.store.getAll source) s).result.map
            (fun () => (s.store.getAll source).length) ∧
      (Repository.cloneAll target source s).store
        = (Repository.saveCopies target (s.store.getAll source) s).store := by
  have hread : Repository.getAll source s = .ok (s.store.getAll source) := by
    show (s.online?.map fun () => s.store.getAll source) = _
    rw [online?_of_online online]
    rfl
  simp only [Repository.cloneAll, hread, and_self]

theorem effect_cloned (s : FaultyStore) (target source : String) :
    ((TokenEvent.cloned target source).apply s).store = (Repository.cloneAll target source s).store ∧
      ((TokenEvent.cloned target source).apply s).result
        = (Repository.cloneAll target source s).result.map fun _ => () := by
  simp only [TokenEvent.apply, TokenEvent.effect]
  cases (Repository.cloneAll target source s).result <;> exact ⟨rfl, rfl⟩

theorem cloned_saveAll (target : String) :
    Cloned s target (traces.map (Trace.relabel target)) traces.length traces.length
      (s.saveAll (traces.map (Trace.relabel target))) where
  target_log := by
    rw [getAll_saveAll_relabel, if_pos rfl, List.take_of_length_le (by simp)]
  other_logs token hne := by rw [getAll_saveAll_relabel, if_neg hne]
  saved_eq := by rw [saveAll, List.length_map]
  attempts_eq := by rw [saveAll, List.length_map]

theorem cloned_tried (target : String) {k : Nat} (hk : k ≤ traces.length) :
    Cloned s target (traces.map (Trace.relabel target)) k (k + 1)
      (s.saveAll ((traces.map (Trace.relabel target)).take k)).tried := by
  have hlength : (traces.take k).length = k := by rw [List.length_take, Nat.min_eq_left hk]
  have h : Cloned s target ((traces.take k).map (Trace.relabel target)) (traces.take k).length
      (traces.take k).length (s.saveAll ((traces.take k).map (Trace.relabel target))) :=
    cloned_saveAll target
  rw [List.map_take, hlength] at h
  refine ⟨?_, h.other_logs, h.saved_eq, ?_⟩
  · have hlog := h.target_log
    rwa [List.take_take, Nat.min_self] at hlog
  · rw [tried, h.attempts_eq, Nat.add_assoc]

/-- A clone copies the traces that the log of its source held at the beginning.  If no copy meets a
fault, all of them are appended to the log of the target and counted; otherwise those before the first
that does, which is the last copy that is tried, and its fault is the result.  No other log changes.
The event that asks for a clone has the same effect, and the same fault as its result. -/
theorem cloneAll_up_to_fault (s : FaultyStore) (online : s.offline = false) (target source : String) :
    let traces := s.store.getAll source
    let copies := traces.map fun t : Trace =>
      { t with
        landscapeToken := target
        spans := t.spans.map fun x => { x with landscapeToken := target } }
    let o := Repository.cloneAll target source s
    let e := (TokenEvent.cloned target source).apply s
    (∀ k fault, s.faultAt copies k = some fault → (∀ i < k, s.faultAt copies i = none) →
      k < traces.length ∧ o.result = .error fault ∧ Cloned s target copies k (k + 1) o.store) ∧
    ((∀ k, s.faultAt copies k = none) →
      o.result = .ok traces.length ∧ Cloned s target copies traces.length traces.length o.store ∧
        (source = target → o.store.store.getAll target = traces ++ copies)) ∧
    e.store = o.store ∧ e.result = o.result.map fun _ => () := by
  intro traces copies o e
  obtain ⟨hresult, hstore⟩ := cloneAll_eq online target source
  refine ⟨fun k fault hk hbefore => ?_, fun hnone => ?_, effect_cloned s target source⟩
  · have hlt : k < traces.length := by simpa [copies] using lt_of_faultAt hk
    obtain ⟨herror, hsaved⟩ := saveCopies_of_fault online hk hbefore
    refine ⟨hlt, by rw [hresult, herror]; rfl, ?_⟩
    rw [hstore, hsaved]
    exact cloned_tried target (Nat.le_of_lt hlt)
  · obtain ⟨hok, hsaved⟩ := saveCopies_of_faultless online hnone
    have hcloned : Cloned s target copies traces.length traces.length o.store := by
      rw [hstore, hsaved]
      exact cloned_saveAll target
    refine ⟨by rw [hresult, hok]; rfl, hcloned, ?_⟩
    rintro rfl
    rw [hcloned.target_log, List.take_of_length_le (by simp [copies])]

/-- A landscape is cloned into itself, and then into another until the fourth save is refused. -/
theorem cloneAll_up_to_fourth_save :
    let a : Trace := {
      landscapeToken := "a", traceId := "1"
      spans := [{ landscapeToken := "a", traceId := "1", spanId := "r" }] }
    let b : Trace := { landscapeToken := "a", traceId := "2", startTime := 7 }
    let down : StoreFault := .refused (.unavailable "down")
    let s : FaultyStore := {
      store := ⟨#[a, b]⟩, plan := fun attempts _ _ => if attempts = 3 then some down else none }
    let once := (Repository.cloneAll "a" "a" s).store
    let twice := Repository.cloneAll "b" "a" once
    let copies := [a, b, a, b].map (Trace.relabel "b")
    s.offline = false ∧ (∀ k, s.faultAt [a, b] k = none) ∧
    once.store.getAll "a" = [a, b, a, b] ∧ once.offline = false ∧
    once.faultAt copies 1 = some down ∧ (∀ i < 1, once.faultAt copies i = none) ∧
    twice.result = .error down ∧ twice.store.store.getAll "b" = [a.relabel "b"] ∧
    twice.store.attempts = 4 ∧ ((TokenEvent.cloned "b" "a").apply once).result = .error down := by
  intro a b down s once twice copies
  have hself : (s.store.getAll "a").map (Trace.relabel "a") = [a, b] := by decide
  have hnone : ∀ k, s.faultAt [a, b] k = none
    | 0 => rfl
    | 1 => rfl
    | _ + 2 => rfl
  obtain ⟨-, hfaultless, -⟩ := cloneAll_up_to_fault s rfl "a" "a"
  obtain ⟨-, -, hlog⟩ := hfaultless fun k => hself ▸ hnone k
  have honce : once.store.getAll "a" = [a, b, a, b] := hlog rfl
  have hfault : once.faultAt copies 1 = some down := by decide
  have hbefore : ∀ i < 1, once.faultAt copies i = none := by decide
  obtain ⟨hfirst, -, -, hevent⟩ := cloneAll_up_to_fault once rfl "b" "a"
  obtain ⟨-, hresult, hcloned⟩ := hfirst 1 down hfault hbefore
  refine ⟨rfl, hnone, honce, rfl, hfault, hbefore, hresult, hcloned.target_log, hcloned.attempts_eq, ?_⟩
  rw [hevent, hresult]
  rfl

end CallTrace.FaultyStore
