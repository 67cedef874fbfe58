import CallTrace.Window.Notice

/-! # Tallies

Counting is adding up: what counters show after some amounts were added (`Counters.tally`) does not
depend on the order of the amounts (`Counters.tally_perm`).  A cell wraps around, the amounts that
notices report do not: a cell shows what was reported for it (`Counters.raised`), up to a multiple
of its range (`Counters.get_record`). -/

namespace CallTrace.Counters

theorem ext_get {c d : Counters} (h : ∀ k, c.get k = d.get k) : c = d := by
  cases c
  cases d
  simp only [Counters.mk.injEq]
  exact ⟨h .receivedSpans, h .lateSpans, h .oversizedRecords, h .reconstructedTraces,
    h .reducedTraces, h .reductionFallbacks, h .persistedTraces, h .failedPersists,
    h .discardedWindows⟩

theorem add_add_comm (c : Counters) (i j : Counter) (m n : UInt64) :
    (c.add i m).add j n = (c.add j n).add i m := by
  apply ext_get
  intro k
  simp only [get_add]
  by_cases hi : i = k <;> by_cases hj : j = k
  · subst hi hj
    simp only [if_true, UInt64.add_assoc, UInt64.add_comm m n]
  · subst hi
    simp [hj]
  · subst hj
    simp [hi]
  · simp [hi, hj]

/-- The counters after some amounts were added. -/
def tally (c : Counters) (amounts : List (Counter × UInt64)) : Counters :=
  amounts.foldl (fun c x => c.add x.1 x.2) c

theorem tally_append (c : Counters) (l l' : List (Counter × UInt64)) :
    c.tally (l ++ l') = (c.tally l).tally l' := by
  rw [tally, List.foldl_append]
  rfl

theorem tally_perm {l l' : List (Counter × UInt64)} (h : l.Perm l') (c : Counters) :
    c.tally l = c.tally l' := by
  induction h generalizing c with
  | nil => rfl
  | cons x _ ih => exact ih _
  | swap x y l =>
    show ((c.add y.1 y.2).add x.1 x.2).tally l = ((c.add x.1 x.2).add y.1 y.2).tally l
    rw [add_add_comm]
  | trans _ _ ih ih' => exact (ih c).trans (ih' c)

/-- Two rounds of amounts of three kinds add up to one round, whatever the order in each kind. -/
theorem tally_tally_of_perm {k k' l l' m m' ls ms : List (Counter × UInt64)}
    (hl : ls.Perm (l ++ l')) (hm : ms.Perm (m ++ m')) (c : Counters) :
    (c.tally (k ++ (l ++ m))).tally (k' ++ (l' ++ m')) = c.tally (k ++ k' ++ (ls ++ ms)) := by
  rw [← tally_append]
  apply tally_perm
  rw [List.perm_iff_count] at hl hm ⊢
  intro x
  have := hl x
  have := hm x
  simp only [List.count_append] at *
  omega

theorem record_eq_tally (c : Counters) (notices : List Notice) :
    c.record notices = c.tally (notices.map Notice.count) := by
  rw [tally, List.foldl_map]
  rfl

end CallTrace.Counters

/-! ### Amounts in full -/

namespace CallTrace

/-- How much a notice reports, in full. -/
def Notice.amount : Notice → Nat
  | .late _ _ => 1
  | .oversized _ _ _ => 1
  | .reconstructed => 1
  | .discarded n => n

theorem Notice.count_snd (n : Notice) : n.count.2 = n.amount.toUInt64 := by
  cases n <;> rfl

namespace Counters

/-- How much notices report for a counter, in full. -/
def raised (k : Counter) : List Notice → Nat
  | [] => 0
  | n :: notices => (if n.count.1 = k then n.amount else 0) + raised k notices

@[simp] theorem raised_nil (k : Counter) : raised k [] = 0 := rfl

@[simp] theorem raised_append (k : Counter) (l l' : List Notice) :
    raised k (l ++ l') = raised k l + raised k l' := by
  induction l with
  | nil => simp
  | cons n l ih =>
    rw [List.cons_append, raised, raised, ih]
    omega

theorem raised_eq_zero {k : Counter} {notices : List Notice}
    (h : ∀ n ∈ notices, n.count.1 ≠ k) : raised k notices = 0 := by
  induction notices with
  | nil => rfl
  | cons n notices ih =>
    rw [raised, if_neg (h n List.mem_cons_self), ih fun m hm => h m (.tail _ hm)]

/-- Each notice is a part of what is reported. -/
theorem amount_le_raised {n : Notice} {notices : List Notice} (h : n ∈ notices) :
    n.amount ≤ raised n.count.1 notices := by
  induction notices with
  | nil => simp at h
  | cons m notices ih =>
    rw [raised]
    rcases List.mem_cons.mp h with rfl | h
    · rw [if_pos rfl]
      omega
    · have := ih h
      omega

/-- A cell shows what was reported for it, up to a multiple of its range. -/
theorem get_record (c : Counters) (notices : List Notice) (k : Counter) :
    (c.record notices).get k = c.get k + (raised k notices).toUInt64 := by
  induction notices generalizing c with
  | nil => exact (UInt64.add_zero _).symm
  | cons n notices ih =>
    rw [show c.record (n :: notices) = (c.add n.count.1 n.count.2).record notices from rfl, ih,
      get_add, raised, n.count_snd]
    split
    · next h =>
      rw [h, UInt64.add_assoc]
      congr 1
      exact (UInt64.ofNat_add _ _).symm
    · rw [Nat.zero_add]

theorem get_record_empty (notices : List Notice) (k : Counter) :
    (record {} notices).get k = (raised k notices).toUInt64 := by
  rw [get_record]
  cases k <;> exact UInt64.zero_add _

/-- Before a cell has wrapped around it shows nothing only if nothing was reported for it. -/
theorem get_record_eq_zero_iff {notices : List Notice} {k : Counter}
    (h : raised k notices < UInt64.size) :
    (record {} notices).get k = 0 ↔ raised k notices = 0 := by
  rw [get_record_empty, ← UInt64.toNat_inj]
  show raised k notices % UInt64.size = 0 ↔ raised k notices = 0
  rw [Nat.mod_eq_of_lt h]

end Counters
end CallTrace
