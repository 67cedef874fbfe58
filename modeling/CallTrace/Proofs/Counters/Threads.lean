import CallTrace.Proofs.Counters

/-! # Counters that threads share

Threads add to counters, take them and show them, all at once.  Each cell is an atomic of its own, so
an addition is one step, but a take is many: it swaps one cell after the other in the order of
`Counter.all`, and between two swaps the other threads go on.  Which thread makes the next step is up to
a schedule, and nothing is asked of the schedule (`Sharing.run`).

What a take has swapped out it holds until it returns (`Thread.held`).  So an amount is at every moment
in one place: in the cell that it was added to, with a take that is under way, or in what a take has
returned (`Thread.step_balance`, `Sharing.run_balance`).  A take that no other thread gets in the way of
is `Counters.take` (`Sharing.run_reading`). -/

namespace CallTrace.Counters

/-- What was added for a counter, in full. -/
def amount (k : Counter) : List (Counter × UInt64) → Nat
  | [] => 0
  | x :: amounts => (if x.1 = k then x.2.toNat else 0) + amount k amounts

/-- What some counters show in one cell, in full. -/
def total (k : Counter) : List Counters → Nat
  | [] => 0
  | c :: rows => (c.get k).toNat + total k rows

@[simp] theorem amount_nil (k : Counter) : amount k [] = 0 := rfl

@[simp] theorem amount_append (k : Counter) (l l' : List (Counter × UInt64)) :
    amount k (l ++ l') = amount k l + amount k l' := by
  induction l with
  | nil => simp
  | cons x l ih =>
    rw [List.cons_append, amount, amount, ih]
    omega

@[simp] theorem total_nil (k : Counter) : total k [] = 0 := rfl

@[simp] theorem total_append (k : Counter) (l l' : List Counters) :
    total k (l ++ l') = total k l + total k l' := by
  induction l with
  | nil => simp
  | cons c l ih =>
    rw [List.cons_append, total, total, ih]
    omega

/-- A cell shows what was added to it, up to a multiple of its range. -/
theorem toNat_get_add (c : Counters) (x : Counter × UInt64) (k : Counter) :
    ((c.add x.1 x.2).get k).toNat = ((c.get k).toNat + amount k [x]) % UInt64.size := by
  rw [get_add, amount, amount, Nat.add_zero]
  split
  · next h => rw [h, UInt64.toNat_add]
  · exact (Nat.mod_eq_of_lt (UInt64.toNat_lt _)).symm

theorem get_empty (k : Counter) : ({} : Counters).get k = 0 := by cases k <;> rfl

theorem toNat_get_tally (c : Counters) (l : List (Counter × UInt64)) (k : Counter) :
    ((c.tally l).get k).toNat = ((c.get k).toNat + amount k l) % UInt64.size := by
  induction l generalizing c with
  | nil => exact (Nat.mod_eq_of_lt (UInt64.toNat_lt _)).symm
  | cons x l ih =>
    rw [show c.tally (x :: l) = (c.add x.1 x.2).tally l from rfl, ih, toNat_get_add,
      Nat.mod_add_mod, Nat.add_assoc, ← amount_append, List.singleton_append]

theorem toNat_get_tally_empty (l : List (Counter × UInt64)) (k : Counter) :
    ((tally {} l).get k).toNat = amount k l % UInt64.size := by
  rw [toNat_get_tally, get_empty]
  show (0 + amount k l) % UInt64.size = _
  rw [Nat.zero_add]

/-! ### Threads -/

inductive Call where
  | add (counter : Counter) (n : UInt64)
  | incr (counter : Counter)
  | take
  | snapshot
deriving DecidableEq, Repr

/-- What a call adds. -/
def Call.amounts : Call → List (Counter × UInt64)
  | .add counter n => [(counter, n)]
  | .incr counter => [(counter, 1)]
  | .take => []
  | .snapshot => []

/-- A call that reads the cells one after the other, and has read some of them. -/
structure Reading where
  /-- Whether it leaves zeros behind. -/
  resets : Bool
  cells : List Counter := Counter.all
  values : Counters := {}
deriving DecidableEq, Repr

/-- A thread: the reading that it is in the middle of, and the calls that it still has to make. -/
structure Thread where
  reading : Option Reading := none
  calls : List Call
deriving DecidableEq, Repr

/-- What a step makes known. -/
inductive Effect where
  | added (counter : Counter) (n : UInt64)
  | taken (values : Counters)
  | shown (values : Counters)
deriving DecidableEq, Repr

def Effect.amounts : Effect → List (Counter × UInt64)
  | .added counter n => [(counter, n)]
  | .taken _ => []
  | .shown _ => []

def Effect.takes : Effect → List Counters
  | .added _ _ => []
  | .taken values => [values]
  | .shown _ => []

namespace Thread

/-- One step: an addition, the next cell of a reading, or the beginning or the end of a reading. -/
def step : Thread → Counters → Thread × Counters × List Effect
  | ⟨some r, calls⟩, c =>
    match r.cells with
    | [] => (⟨none, calls⟩, c, [if r.resets then .taken r.values else .shown r.values])
    | k :: cells =>
      let (n, left) := if r.resets then c.swap k else (c.get k, c)
      (⟨some ⟨r.resets, cells, r.values.set k n⟩, calls⟩, left, [])
  | ⟨none, []⟩, c => (⟨none, []⟩, c, [])
  | ⟨none, .add k n :: calls⟩, c => (⟨none, calls⟩, c.add k n, [.added k n])
  | ⟨none, .incr k :: calls⟩, c => (⟨none, calls⟩, c.incr k, [.added k 1])
  | ⟨none, .take :: calls⟩, c => (⟨some { resets := true }, calls⟩, c, [])
  | ⟨none, .snapshot :: calls⟩, c => (⟨some { resets := false }, calls⟩, c, [])

/-- What a thread has swapped out and not yet returned. -/
def held (t : Thread) : List Counters :=
  match t.reading with
  | some r => if r.resets then [r.values] else []
  | none => []

/-- What a thread is still going to add. -/
def unadded (t : Thread) : List (Counter × UInt64) := t.calls.flatMap Call.amounts

/-- Whether a reading has no value yet for the cells that it is still going to read. -/
def Fresh (t : Thread) : Prop :=
  ∀ r ∈ t.reading, r.cells.Nodup ∧ ∀ k ∈ r.cells, r.values.get k = 0

theorem fresh_of_calls (calls : List Call) : Fresh ⟨none, calls⟩ := fun _ h => nomatch h

theorem fresh_of_begun (resets : Bool) (calls : List Call) : Fresh ⟨some { resets }, calls⟩ := by
  intro r hr
  obtain rfl : { resets } = r := by simpa using hr
  exact ⟨(by decide : Counter.all.Nodup), fun k _ => get_empty k⟩

/-- A thread holds, after it has swapped out a cell, what the cell has shown. -/
theorem toNat_swap {values c : Counters} {j : Counter} (hj : values.get j = 0) (k : Counter) :
    ((values.set j (c.get j)).get k).toNat + ((c.set j 0).get k).toNat
      = (values.get k).toNat + (c.get k).toNat := by
  rw [get_set, get_set]
  split
  · next h =>
    subst h
    rw [hj]
    exact Nat.add_comm ..
  · rfl

theorem step_fresh {t : Thread} (h : t.Fresh) (c : Counters) : (t.step c).1.Fresh := by
  obtain ⟨_ | ⟨resets, cells, values⟩, calls⟩ := t
  · rcases calls with _ | ⟨_ | _ | _ | _, calls⟩
    · exact h
    · exact fresh_of_calls calls
    · exact fresh_of_calls calls
    · exact fresh_of_begun true calls
    · exact fresh_of_begun false calls
  · obtain ⟨hnodup, hzero⟩ := h _ rfl
    rcases cells with _ | ⟨j, cells⟩
    · exact fresh_of_calls calls
    · obtain ⟨hj, hnodup⟩ := List.nodup_cons.mp hnodup
      intro r hr
      obtain rfl := Option.some.inj hr
      refine ⟨hnodup, fun k hk => ?_⟩
      have hne : j ≠ k := fun heq => hj (heq ▸ hk)
      rw [get_set, if_neg hne]
      exact hzero k (.tail _ hk)

/-- A step adds what the thread was going to add. -/
theorem step_unadded (t : Thread) (c : Counters) :
    (t.step c).2.2.flatMap Effect.amounts ++ (t.step c).1.unadded = t.unadded := by
  obtain ⟨_ | ⟨_ | _, _ | _, _⟩, _ | ⟨_ | _ | _ | _, _⟩⟩ := t <;> rfl

/-- A step moves amounts and loses none: what the thread returns, what it holds and what the cell shows
grow together by what it adds. -/
theorem step_balance {t : Thread} (h : t.Fresh) (c : Counters) (k : Counter) :
    (total k ((t.step c).2.2.flatMap Effect.takes) + total k (t.step c).1.held
        + ((t.step c).2.1.get k).toNat) % UInt64.size
      = (total k t.held + (c.get k).toNat + amount k ((t.step c).2.2.flatMap Effect.amounts))
        % UInt64.size := by
  have hadd (x : Counter × UInt64) : (0 + ((c.add x.1 x.2).get k).toNat) % UInt64.size
      = (0 + (c.get k).toNat + amount k [x]) % UInt64.size := by
    rw [toNat_get_add, Nat.zero_add, Nat.zero_add, Nat.mod_mod]
  obtain ⟨_ | ⟨resets, cells, values⟩, calls⟩ := t
  · rcases calls with _ | ⟨⟨j, n⟩ | j | _ | _, calls⟩
    · rfl
    · exact hadd (j, n)
    · exact hadd (j, 1)
    · show (0 + ((({} : Counters).get k).toNat + 0) + (c.get k).toNat) % UInt64.size
        = (0 + (c.get k).toNat + 0) % UInt64.size
      rw [get_empty]
      rfl
    · rfl
  · rcases cells with _ | ⟨j, cells⟩
    · cases resets with
      | true => rfl
      | false => rfl
    · cases resets with
      | true =>
        have hj : values.get j = 0 := (h _ rfl).2 j List.mem_cons_self
        show (0 + (((values.set j (c.get j)).get k).toNat + 0) + ((c.set j 0).get k).toNat)
            % UInt64.size = ((values.get k).toNat + 0 + (c.get k).toNat + 0) % UInt64.size
        rw [Nat.zero_add, Nat.add_zero, Nat.add_zero, Nat.add_zero, toNat_swap hj]
      | false => rfl

end Thread

/-! ### Sharing -/

/-- Counters, the threads that share them, and what has come of the steps so far. -/
structure Sharing where
  counters : Counters := {}
  threads : List Thread
  effects : List Effect := []
deriving DecidableEq, Repr

namespace Sharing

/-- Threads that have not made a call yet. -/
def start (programs : List (List Call)) : Sharing :=
  { threads := programs.map fun calls => { calls } }

/-- The next step of a thread. -/
def step (s : Sharing) (i : Nat) : Sharing :=
  match s.threads[i]? with
  | some t =>
    let (t, c, effects) := t.step s.counters
    ⟨c, s.threads.set i t, s.effects ++ effects⟩
  | none => s

/-- What becomes of the threads if a schedule says whose step is next. -/
def run (schedule : List Nat) (s : Sharing) : Sharing := schedule.foldl step s

/-- What was added so far. -/
def added (s : Sharing) : List (Counter × UInt64) := s.effects.flatMap Effect.amounts

/-- What takes have returned so far. -/
def taken (s : Sharing) : List Counters := s.effects.flatMap Effect.takes

/-- What the takes that are under way have swapped out. -/
def held (s : Sharing) : List Counters := s.threads.flatMap Thread.held

/-- What is still going to be added. -/
def unadded (s : Sharing) : List (Counter × UInt64) := s.threads.flatMap Thread.unadded

def Fresh (s : Sharing) : Prop := ∀ t ∈ s.threads, t.Fresh

/-- Whether a counter shows what was added for it, but for what was taken or is being taken, up to a
multiple of its range. -/
def Balanced (k : Counter) (s : Sharing) : Prop :=
  (total k (s.taken ++ s.held) + (s.counters.get k).toNat) % UInt64.size
    = amount k s.added % UInt64.size

variable {s : Sharing}

theorem step_at (c : Counters) (before after : List Thread) (t : Thread) (effects : List Effect) :
    step ⟨c, before ++ t :: after, effects⟩ before.length
      = ⟨(t.step c).2.1, before ++ (t.step c).1 :: after, effects ++ (t.step c).2.2⟩ := by
  simp [step]

/-- Nothing happens, or one of the threads makes a step and the others stay as they are. -/
theorem step_cases (s : Sharing) (i : Nat) :
    s.step i = s ∨ ∃ before t after, s.threads = before ++ t :: after
      ∧ s.step i = ⟨(t.step s.counters).2.1, before ++ (t.step s.counters).1 :: after,
        s.effects ++ (t.step s.counters).2.2⟩ := by
  obtain ⟨c, threads, effects⟩ := s
  rcases Nat.lt_or_ge i threads.length with hi | hi
  · have hlength : (threads.take i).length = i := List.length_take_of_le (Nat.le_of_lt hi)
    have hsplit : threads = threads.take i ++ threads[i] :: threads.drop (i + 1) := by
      rw [← List.drop_eq_getElem_cons hi, List.take_append_drop]
    refine .inr ⟨_, _, _, hsplit, ?_⟩
    have hstep := step_at c (threads.take i) (threads.drop (i + 1)) threads[i] effects
    rwa [hlength, ← hsplit] at hstep
  · exact .inl (by simp [step, List.getElem?_eq_none hi])

theorem step_fresh (h : s.Fresh) (i : Nat) : (s.step i).Fresh := by
  obtain heq | ⟨before, t, after, hthreads, heq⟩ := s.step_cases i
  · rwa [heq]
  · rw [Fresh, hthreads, List.forall_mem_append, List.forall_mem_cons] at h
    rw [heq, Fresh, List.forall_mem_append, List.forall_mem_cons]
    exact ⟨h.1, Thread.step_fresh h.2.1 _, h.2.2⟩

theorem step_unadded (s : Sharing) (i : Nat) :
    ((s.step i).added ++ (s.step i).unadded).Perm (s.added ++ s.unadded) := by
  obtain heq | ⟨before, t, after, hthreads, heq⟩ := s.step_cases i
  · rw [heq]
  · rw [heq, added, unadded, added, unadded, hthreads, List.flatMap_append, List.flatMap_append,
      List.flatMap_append, List.flatMap_cons, List.flatMap_cons, ← t.step_unadded s.counters]
    simp only [← List.append_assoc]
    refine .append_right _ (.append_right _ ?_)
    rw [List.append_assoc, List.append_assoc]
    exact List.perm_append_comm.append_left _

theorem step_balance (hfresh : s.Fresh) {k : Counter} (h : s.Balanced k) (i : Nat) :
    (s.step i).Balanced k := by
  obtain heq | ⟨before, t, after, hthreads, heq⟩ := s.step_cases i
  · rwa [heq]
  · have ht : t.Fresh := hfresh t (by simp [hthreads])
    have hstep := Thread.step_balance ht s.counters k
    rw [Balanced, taken, held, added, hthreads] at h
    rw [heq, Balanced, taken, held, added]
    simp only [List.flatMap_append, List.flatMap_cons, total_append, amount_append,
      UInt64.size] at h hstep ⊢
    omega

theorem run_append (schedule schedule' : List Nat) (s : Sharing) :
    s.run (schedule ++ schedule') = (s.run schedule).run schedule' := List.foldl_append

theorem run_induction {P : Sharing → Prop} (hstep : ∀ s i, P s → P (s.step i)) (h : P s)
    (schedule : List Nat) : P (s.run schedule) := by
  induction schedule generalizing s with
  | nil => exact h
  | cons i schedule ih => exact ih (hstep s i h)

theorem start_fresh (programs : List (List Call)) : (start programs).Fresh := by
  intro t ht
  obtain ⟨calls, -, rfl⟩ := List.mem_map.mp ht
  exact Thread.fresh_of_calls calls

theorem held_eq_nil (h : ∀ t ∈ s.threads, t.reading = none) : s.held = [] := by
  refine List.flatMap_eq_nil_iff.mpr fun t ht => ?_
  rw [Thread.held, h t ht]

theorem start_held (programs : List (List Call)) : (start programs).held = [] := by
  refine held_eq_nil fun t ht => ?_
  obtain ⟨calls, -, rfl⟩ := List.mem_map.mp ht
  rfl

/-- Whatever the schedule, no amount is lost and none is taken twice. -/
theorem run_balance (programs : List (List Call)) (schedule : List Nat) (k : Counter) :
    ((start programs).run schedule).Balanced k := by
  have hstart : (start programs).Balanced k := by
    rw [Balanced, start_held, List.append_nil]
    show (0 + (({} : Counters).get k).toNat) % UInt64.size = 0 % UInt64.size
    rw [get_empty]
    rfl
  exact (run_induction (P := fun s => s.Fresh ∧ s.Balanced k)
    (fun s i h => ⟨step_fresh h.1 i, step_balance h.1 h.2 i⟩) ⟨start_fresh programs, hstart⟩
    schedule).2

/-- What was added so far are the amounts of the threads' calls, but for those still to be added. -/
theorem run_unadded (programs : List (List Call)) (schedule : List Nat) :
    (((start programs).run schedule).added ++ ((start programs).run schedule).unadded).Perm
      (programs.flatMap fun calls => calls.flatMap Call.amounts) := by
  have hstart : ((start programs).added ++ (start programs).unadded)
      = programs.flatMap fun calls => calls.flatMap Call.amounts := by
    show (programs.map _).flatMap Thread.unadded = _
    rw [List.flatMap_map]
    rfl
  exact run_induction (P := fun s => (s.added ++ s.unadded).Perm _)
    (fun s i h => (step_unadded s i).trans h) (.of_eq hstart) schedule

theorem copy_all (c : Counters) :
    Counter.all.foldl (fun values k => values.set k (c.get k)) {} = c := by
  cases c
  rfl

theorem clear_all (c : Counters) : Counter.all.foldl (fun left k => left.set k 0) c = {} := rfl

section alone
variable (resets : Bool) (before after : List Thread) (calls : List Call) (effects : List Effect)

theorem step_cell (k : Counter) (cells : List Counter) (values c : Counters) :
    step ⟨c, before ++ ⟨some ⟨resets, k :: cells, values⟩, calls⟩ :: after, effects⟩ before.length
      = ⟨if resets then c.set k 0 else c,
        before ++ ⟨some ⟨resets, cells, values.set k (c.get k)⟩, calls⟩ :: after, effects⟩ := by
  rw [step_at]
  cases resets <;> simp [Thread.step, swap]

/-- A reading goes through its cells; those that it has not come to yet show what they did. -/
theorem run_cells {cells : List Counter} (hnodup : cells.Nodup) (values c : Counters) {d : Counters}
    (hd : ∀ k ∈ cells, d.get k = c.get k) :
    run (List.replicate cells.length before.length)
        ⟨d, before ++ ⟨some ⟨resets, cells, values⟩, calls⟩ :: after, effects⟩
      = ⟨if resets then cells.foldl (fun left k => left.set k 0) d else d,
        before ++ ⟨some ⟨resets, [], cells.foldl (fun values k => values.set k (c.get k)) values⟩,
          calls⟩ :: after, effects⟩ := by
  induction cells generalizing values d with
  | nil => simp [run]
  | cons k cells ih =>
    obtain ⟨hk, hnodup⟩ := List.nodup_cons.mp hnodup
    have hrest (j : Counter) (hj : j ∈ cells) :
        (if resets then d.set k 0 else d).get j = c.get j := by
      have hne : k ≠ j := fun heq => hk (heq ▸ hj)
      rw [← hd j (.tail _ hj)]
      cases resets <;> simp [hne]
    show run (List.replicate cells.length before.length) (step _ before.length) = _
    rw [step_cell, ih hnodup _ hrest, hd k List.mem_cons_self]
    cases resets <;> rfl

/-- A take or a snapshot that no other thread gets in the way of. -/
theorem run_reading (c : Counters) :
    run (List.replicate 10 before.length)
        ⟨c, before ++ ⟨some { resets }, calls⟩ :: after, effects⟩
      = ⟨if resets then c.take.2 else c, before ++ ⟨none, calls⟩ :: after,
          effects ++ [if resets then .taken c.take.1 else .shown c]⟩ := by
  have hcells := run_cells resets before after calls effects (by decide : Counter.all.Nodup) {} c
    fun _ _ => rfl
  rw [show List.replicate 10 before.length
      = List.replicate Counter.all.length before.length ++ [before.length] from rfl, run_append, hcells,
    copy_all, clear_all]
  show step _ before.length = _
  rw [step_at]
  cases resets <;> rfl

end alone

end Sharing
end CallTrace.Counters
