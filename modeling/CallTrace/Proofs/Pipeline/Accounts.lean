import CallTrace.Proofs.Pipeline.History
import CallTrace.Proofs.Window.Fates

/-! # What the counters of a pipeline show

Callers count the spans that they bring, and workers count everything else.  A worker counts what its
assembler reports, and for every save whether the trace was reduced and whether it was saved
(`Deed.counters`).  So but for a multiple of its range, a counter of the workers shows how often it is
named by what they did and by what their assemblers report (`System.counted_run`). -/

namespace CallTrace

namespace Counters

/-- A cell that is raised one at a time shows how often it was. -/
theorem get_tally_ones (c : Counters) (l : List Counter) (k : Counter) :
    (c.tally (l.map fun i => (i, 1))).get k = c.get k + (l.count k).toUInt64 := by
  induction l generalizing c with
  | nil => exact (UInt64.add_zero _).symm
  | cons i l ih =>
    rw [List.map_cons, show c.tally ((i, 1) :: l.map fun i => (i, 1))
      = (c.add i 1).tally (l.map fun i => (i, 1)) from rfl, ih, get_add, List.count_cons]
    by_cases hi : i = k
    · have hsum : (l.count k + 1).toUInt64 = (l.count k).toUInt64 + 1 := UInt64.ofNat_add _ _
      simp only [hi, beq_self_eq_true, if_true, hsum]
      rw [UInt64.add_assoc, UInt64.add_comm 1]
    · simp [hi]

variable {k : Counter} {f g : Nat → List Notice} {l : List Nat}

theorem raised_flatMap_update {i : Nat} {notices : List Notice} (hnodup : l.Nodup) (hi : i ∈ l)
    (hnew : g i = f i ++ notices) (hothers : ∀ j, j ≠ i → g j = f j) :
    raised k (l.flatMap g) = raised k (l.flatMap f) + raised k notices := by
  induction l with
  | nil => simp at hi
  | cons j l ih =>
    obtain ⟨hj, hnodup⟩ := List.nodup_cons.mp hnodup
    rw [List.flatMap_cons, List.flatMap_cons, raised_append, raised_append]
    rcases List.mem_cons.mp hi with rfl | hi
    · have hrest : l.flatMap g = l.flatMap f :=
        List.flatMap_congr fun x hx => hothers x fun e => hj (e ▸ hx)
      rw [hrest, hnew, raised_append]
      omega
    · rw [ih hnodup hi, hothers j fun e => hj (e ▸ hi)]
      omega

theorem raised_flatMap_eq_countP {α : Type} {g : Nat → List α} {P : α → Bool}
    (h : ∀ i ∈ l, raised k (f i) = (g i).countP P) :
    raised k (l.flatMap f) = (l.flatMap g).countP P := by
  induction l with
  | nil => rfl
  | cons i l ih =>
    rw [List.flatMap_cons, List.flatMap_cons, raised_append, List.countP_append,
      h i List.mem_cons_self, ih fun j hj => h j (.tail _ hj)]

end Counters

/-! ### What workers count -/

/-- The counters that a deed raises besides those that the assembler reports. -/
def Deed.counters (depthLimit : Nat) : Deed → List Counter
  | save t result =>
    Worker.reductionCounter (t.reduce depthLimit) ::
      match result with
      | .ok () => [.persistedTraces]
      | .error (.refused _) => [.failedPersists]
      | .error .crashed => []
  | perform _ => []
  | report _ => []

/-- The counters that workers raised for saves. -/
def counted (depthLimit : Nat) (h : List Event) : List Counter :=
  h.flatMap fun
    | .sent _ _ => []
    | .did _ d => d.counters depthLimit

theorem counted_append (depthLimit : Nat) (h h' : List Event) :
    counted depthLimit (h ++ h') = counted depthLimit h ++ counted depthLimit h' :=
  List.flatMap_append

theorem counted_did (depthLimit i : Nat) (deeds : List Deed) :
    counted depthLimit (deeds.map (.did i)) = deeds.flatMap (Deed.counters depthLimit) :=
  List.flatMap_map ..

/-- Whether a counter is about what becomes of closed traces. -/
def Counter.isOutcome : Counter → Bool
  | .reducedTraces | .reductionFallbacks | .persistedTraces | .failedPersists => true
  | _ => false

theorem Deed.isOutcome_of_mem_counters {depthLimit : Nat} {d : Deed} {k : Counter}
    (hk : k ∈ d.counters depthLimit) : k.isOutcome = true := by
  cases d with
  | perform o => simp [counters] at hk
  | report ticket => simp [counters] at hk
  | save t result =>
    rcases List.mem_cons.mp hk with rfl | hk
    · cases t.reduce depthLimit <;> rfl
    · split at hk
      · obtain rfl := List.mem_singleton.mp hk
        rfl
      · obtain rfl := List.mem_singleton.mp hk
        rfl
      · simp at hk

/-- Assemblers report nothing about outcomes. -/
theorem Notice.isOutcome_count (n : Notice) : n.count.1.isOutcome = false := by
  cases n <;> rfl

namespace Worker
variable {σ : Type} [Repository σ] {c : WindowConfig} {depthLimit : Nat} {w w' : Worker}
  {s s' : Shared σ} {deeds : List Deed}

theorem counters_persist (t : Trace) (w : Worker) (s : Shared σ) :
    (persist depthLimit t w s).2.counters = s.counters.tally
      (((Deed.save t (Repository.save (reduced depthLimit t) s.store).1).counters depthLimit).map
        fun k => (k, 1)) := by
  simp only [persist]
  split <;> next h =>
    rw [show (Repository.save (reduced depthLimit t) s.store).1 = _ from congrArg Prod.fst h]
    rfl

/-- A step counts what the worker does and what its assembler reports of that. -/
theorem counted_step (hrunning : w.running = true) (hassembler : w.assembler = (c.after deeds).1)
    (hstep : Step depthLimit w s w' s') (k : Counter) :
    ∃ notices, (c.after (deeds ++ w.deeds depthLimit s.store)).2.notices
        = (c.after deeds).2.notices ++ notices ∧
      s'.counters.get k = s.counters.get k
        + (((w.deeds depthLimit s.store).flatMap (Deed.counters depthLimit)).count k
          + Counters.raised k notices).toUInt64 := by
  have hperform : ∀ o : Operation, (c.after (deeds ++ [.perform o])).2.notices
      = (c.after deeds).2.notices ++ (w.assembler.perform o).2.notices := by
    intro o
    rw [WindowConfig.after_perform, hassembler]
    rfl
  have hreported : ∀ notices : List Notice, (s.counters.record notices).get k
      = s.counters.get k + (0 + Counters.raised k notices).toUInt64 := by
    intro notices
    rw [Nat.zero_add, Counters.get_record]
  have hnothing : s.counters.get k = s.counters.get k + (0 + Counters.raised k []).toUInt64 :=
    (UInt64.add_zero _).symm
  cases hstep with
  | save hclosed =>
    rw [deeds_of_closed hrunning hclosed, c.after_append deeds rfl, List.flatMap_singleton]
    refine ⟨[], (List.append_nil _).symm, ?_⟩
    rw [counters_persist, Counters.get_tally_ones]
    rfl
  | batchEnd hclosed hinbox =>
    rw [deeds_of_inbox hrunning hclosed hinbox]
    exact ⟨[], by simp [Command.deeds], hnothing⟩
  | push hclosed hinbox =>
    rw [deeds_of_inbox hrunning hclosed hinbox]
    exact ⟨_, hperform _, hreported _⟩
  | advance hclosed hinbox =>
    rw [deeds_of_inbox hrunning hclosed hinbox]
    exact ⟨_, hperform _, hreported _⟩
  | @report ticket inbox hclosed hinbox =>
    rw [deeds_of_inbox hrunning hclosed hinbox, Shared.counters_answer]
    refine ⟨[], ?_, hnothing⟩
    rw [List.append_nil]
    exact congrArg (fun r => r.2.notices) (c.after_append deeds (d := .report ticket) rfl)
  | shutdown hclosed hinbox =>
    rw [deeds_of_inbox hrunning hclosed hinbox]
    exact ⟨_, hperform .discard, hreported _⟩

end Worker

/-- A caller counts nothing but the spans that it brings. -/
theorem Caller.Step.get_counters {σ : Type} {c c' : Caller} {p q : Pipeline σ} {es : List Event}
    (hstep : Step c p es c' q) {k : Counter} (hk : k ≠ .receivedSpans) :
    q.shared.counters.get k = p.shared.counters.get k := by
  cases hstep with
  | @begin request =>
    cases request with
    | ingest spans =>
      show (p.shared.counters.add .receivedSpans _).get k = _
      rw [Counters.get_add, if_neg (Ne.symm hk)]
    | _ => rfl
  | @refuse _ ticket => cases ticket <;> rfl
  | _ => rfl

/-! ### Schedules -/

namespace System
variable {σ : Type} {c : WindowConfig} {h es : List Event} {s s' : System σ} {k : Counter}

/-- All that the assemblers of workers have reported. -/
def reported (c : WindowConfig) (h : List Event) (s : System σ) : List Notice :=
  (List.range s.pipeline.workers.size).flatMap fun i => (c.after (deedsOf i h)).2.notices

/-- What a counter of the workers is to show. -/
def account (c : WindowConfig) (h : List Event) (s : System σ) (k : Counter) : Nat :=
  (counted s.pipeline.depthLimit h).count k + Counters.raised k (reported c h s)

theorem account_of_outcome (hk : k.isOutcome = true) :
    account c h s k = (counted s.pipeline.depthLimit h).count k := by
  rw [account, Counters.raised_eq_zero, Nat.add_zero]
  rintro n - rfl
  simp [n.isOutcome_count] at hk

theorem account_of_reported (hk : k.isOutcome = false) :
    account c h s k = Counters.raised k (reported c h s) := by
  rw [account, List.count_eq_zero_of_not_mem, Nat.zero_add]
  intro hmem
  obtain ⟨e, -, hk'⟩ := List.mem_flatMap.mp hmem
  cases e with
  | sent i command => simp at hk'
  | did i d => exact absurd (Deed.isOutcome_of_mem_counters hk') (by simp [hk])

variable [Repository σ]

/-- What a step adds to a counter of the workers is what it adds to the account. -/
theorem Step.counted (hr : Recorded c h s) (hstep : s.Step es s') (hk : k ≠ .receivedSpans)
    (hcount : s.pipeline.shared.counters.get k = (account c h s k).toUInt64) :
    s'.pipeline.shared.counters.get k = (account c (h ++ es) s' k).toUInt64 := by
  cases hstep with
  | pass => exact (List.append_nil h).symm ▸ hcount
  | @worker i w w' shared q hw hrunning hstep hput =>
    have hlt := (Array.getElem?_eq_some_iff.mp hw).1
    obtain ⟨-, -, hassembler, -⟩ := (hr.standing i w hw).of_running hrunning
    obtain ⟨notices, hnew, hcounted⟩ := Worker.counted_step hrunning hassembler hstep k
    have hraised : Counters.raised k (reported c
          (h ++ (w.deeds s.pipeline.depthLimit s.pipeline.shared.store).map (.did i))
          { s with pipeline := q })
        = Counters.raised k (reported c h s) + Counters.raised k notices := by
      simp only [reported, hput.workers, Array.size_setIfInBounds]
      refine Counters.raised_flatMap_update List.nodup_range (List.mem_range.mpr hlt) ?_ ?_
      · simpa using hnew
      · intro j hj
        simp [Ne.symm hj]
    show q.shared.counters.get k = _
    rw [hput.counters, hcounted, hcount, account, account, hraised, hput.depthLimit, counted_append,
      counted_did, List.count_append]
    refine (UInt64.ofNat_add _ _).symm.trans (congrArg UInt64.ofNat ?_)
    omega
  | caller hc hstep =>
    have hsame := hstep.get_counters hk
    rcases hstep.aside_or_sent with ⟨rfl, haside⟩ | ⟨i, command, w, ready, rfl, -, -, rfl⟩
    · rw [List.append_nil]
      simpa only [account, reported, haside.workers, haside.depthLimit, hsame] using hcount
    · simpa [account, reported, counted_append, CallTrace.counted] using hcount

/-- A counter that shows what is accounted for does so under every schedule. -/
theorem Recorded.counted_run (hr : Recorded c h s) (hk : k ≠ .receivedSpans)
    (hcount : s.pipeline.shared.counters.get k = (account c h s k).toUInt64) (schedule : List Actor) :
    (s.run schedule).pipeline.shared.counters.get k
      = (account c (h ++ s.history schedule) (s.run schedule) k).toUInt64 := by
  refine (history_induction (I := fun h' s' => Recorded c (h ++ h') s' ∧
    s'.pipeline.shared.counters.get k = (account c (h ++ h') s' k).toUInt64)
    ?_ ?_ schedule).2
  · rintro h' s es s' ⟨hr, hcount⟩ hstep
    exact ⟨List.append_assoc .. ▸ hr.step hstep, List.append_assoc .. ▸ hstep.counted hr hk hcount⟩
  · rw [List.append_nil]
    exact ⟨hr, hcount⟩

/-- Under every schedule the counters of the workers show what is to be accounted for. -/
theorem counted_run (settings : Settings) (store : σ) (scripts : List (List Request))
    (schedule : List Actor) (hk : k ≠ .receivedSpans) :
    let s := start (Pipeline.initial settings store) scripts
    (s.run schedule).pipeline.shared.counters.get k
      = (account settings.windows (s.history schedule) (s.run schedule) k).toUInt64 := by
  refine (recorded_start settings store scripts).counted_run hk ?_ schedule
  rw [account, reported, Counters.raised_eq_zero]
  · cases k <;> rfl
  · simp [WindowConfig.after, Assembler.run, deedsOf]

end System
end CallTrace
