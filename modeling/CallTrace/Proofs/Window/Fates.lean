import CallTrace.Proofs.Window.Gathering

/-! # What becomes of slots

A slot is made when a span is accepted and finds none at its address.  From then on it has one of
four fates: it is open still, its trace is emitted, its trace is dropped for its size, or it is
discarded while it is open.  Addresses are kept as lists, one entry for each slot, and every step
moves entries from one list to another (`Assembler.fates_perform`), so after a run the slots that
were made are those of the four lists together (`Assembler.fates_run`).

At one address there may be several slots, one after the other, but a discard lies between any two:
until then an accepted span has a slot or its window is closed
(`Assembler.Gathers.not_mem_made`).  Hence each slot has a single fate
(`Assembler.single_fate`), and a slot whose trace was dropped has its fate for good, whatever is
pushed to it. -/

namespace CallTrace

/-- Where the slot of a trace stood. -/
def Trace.address (c : WindowConfig) (t : Trace) : Timestamp × String :=
  ((c.windowOf t.startTime).start, t.windowKey)

/-- Where the slot stands whose trace a notice reports as too large. -/
def Notice.dropped? : Notice → Option (Timestamp × String)
  | late _ _ => none
  | oversized key window _ => some (window.start, key)
  | reconstructed => none
  | discarded _ => none

/-- The addresses of the slots whose traces are reported as too large. -/
def dropped (notices : List Notice) : List (Timestamp × String) :=
  notices.filterMap Notice.dropped?

theorem dropped_append (l l' : List Notice) : dropped (l ++ l') = dropped l ++ dropped l' :=
  List.filterMap_append

theorem length_dropped (notices : List Notice) :
    (dropped notices).length = Counters.raised .oversizedRecords notices := by
  induction notices with
  | nil => rfl
  | cons n notices ih =>
    rw [Counters.raised, ← ih]
    cases n with
    | oversized key window limit => exact Nat.add_comm ..
    | _ => exact (Nat.zero_add _).symm

namespace Slot
variable {c : WindowConfig} {limit : Nat} {window : Window} {span : Span} {s : Slot}
  {slots : List Slot}

/-! ### Single slots -/

/-- The addresses of the slots that can still emit a trace. -/
def opened (slots : List Slot) : List (Timestamp × String) :=
  (slots.filter fun s => !s.overflowed).map address

theorem opened_append (l l' : List Slot) : opened (l ++ l') = opened l ++ opened l' := by
  rw [opened, List.filter_append, List.map_append]
  rfl

theorem opened_insert (before : List Slot) (s : Slot) (after : List Slot) :
    opened (before ++ s :: after) = opened before ++ (opened [s] ++ opened after) := by
  rw [← opened_append, ← opened_append, List.singleton_append]

theorem opened_of_open (h : s.overflowed = false) : opened [s] = [s.address] := by
  simp [opened, h]

theorem opened_of_overflowed (h : s.overflowed = true) : opened [s] = [] := by
  simp [opened, h]

/-- A slot stays open, or its trace is dropped and that is reported. -/
theorem opened_limited (hopen : s.overflowed = false) (hstart : s.start = window.start) :
    opened [(s.limited limit window).1] ++ dropped (s.limited limit window).2 = [s.address] := by
  unfold limited
  split
  · rw [opened_of_overflowed rfl, address, hstart]
    rfl
  · rw [opened_of_open hopen]
    rfl

theorem opened_first (limit : Nat) (window : Window) (span : Span) :
    opened [(first limit window span).1] ++ dropped (first limit window span).2
      = [(window.start, span.windowKey)] := by
  simp only [first]
  exact opened_limited rfl rfl

/-- Of a slot whose trace was dropped no further span says anything. -/
theorem opened_extend (limit : Nat) (span : Span) (hstart : s.start = window.start) :
    opened [(s.extend limit window span).1] ++ dropped (s.extend limit window span).2
      = opened [s] := by
  unfold extend
  cases hs : s.overflowed with
  | true =>
    rw [if_pos rfl]
    exact List.append_nil _
  | false =>
    rw [if_neg Bool.false_ne_true, opened_of_open hs]
    exact opened_limited rfl hstart

/-- A slot of a closed window emits its trace or reports it as too large. -/
theorem opened_emit (h : s.Sound c) :
    (s.emit c).traces.map (Trace.address c) ++ dropped (s.emit c).notices = opened [s] := by
  unfold emit
  cases hs : s.overflowed with
  | true =>
    rw [if_pos rfl, opened_of_overflowed hs]
    rfl
  | false =>
    rw [if_neg Bool.false_ne_true, opened_of_open hs]
    split
    · show [s.trace.address c] = [s.address]
      rw [Trace.address, h.windowOf_startTime hs, h.windowKey_trace hs, h.start_eq]
      rfl
    · show [((c.windowOf s.start).start, s.key)] = [s.address]
      rw [h.start_eq]
      rfl

/-! ### Lists of slots -/

/-- Placing a span makes a slot if there is none at its address. -/
theorem opened_place (h : Ordered slots) : (opened slots
    ++ if ∀ s ∈ slots, s.address ≠ (window.start, span.windowKey) then
        [(window.start, span.windowKey)] else []).Perm
      (opened (place limit window span slots).1 ++ dropped (place limit window span slots).2) := by
  obtain ⟨before, after, hothers, ⟨rfl, hplace⟩ | ⟨s, haddress, rfl, hplace⟩⟩ :=
    place_eq limit window span h
  · have hfirst := opened_first limit window span
    rw [hplace, if_pos hothers, ← hfirst, opened_insert, opened_append, List.perm_iff_count]
    intro p
    simp only [List.count_append]
    omega
  · have hextend := opened_extend limit span (congrArg Prod.fst haddress)
    have hfound : ¬∀ t ∈ before ++ s :: after, t.address ≠ (window.start, span.windowKey) :=
      fun hnone => hnone s (by simp) haddress
    rw [hplace, if_neg hfound, opened_insert, opened_insert, ← hextend, List.perm_iff_count]
    intro p
    simp only [List.count_append, List.count_nil]
    omega

theorem opened_emits (h : ∀ s ∈ slots, s.Sound c) : (opened slots).Perm
    ((slots.flatMap fun s => (s.emit c).traces).map (Trace.address c)
      ++ dropped (slots.flatMap fun s => (s.emit c).notices)) := by
  induction slots with
  | nil => exact List.Perm.refl _
  | cons s slots ih =>
    have hfirst := opened_emit (h s List.mem_cons_self)
    have hrest := List.perm_iff_count.mp (ih fun t ht => h t (.tail _ ht))
    rw [List.flatMap_cons, List.flatMap_cons, List.map_append, dropped_append,
      ← List.singleton_append, opened_append, ← hfirst, List.perm_iff_count]
    intro p
    have := hrest p
    simp only [List.count_append] at *
    omega

end Slot

namespace Assembler
open Slot
variable {a : Assembler} {known : List Span} {x : Span}

theorem length_opened (a : Assembler) : (opened a.slots).length = a.openWindows := by
  rw [opened, List.length_map, openWindows, List.countP_eq_length_filter]

/-! ### One operation -/

/-- Whether a span is accepted and finds no slot at its address. -/
def makes (a : Assembler) (span : Span) : Prop :=
  a.late span = false ∧ ∀ s ∈ a.slots, s.address ≠ span.address a.config

instance (a : Assembler) (span : Span) : Decidable (a.makes span) :=
  inferInstanceAs (Decidable (_ ∧ _))

/-- The address of the slot that an operation makes. -/
def made (a : Assembler) : Operation → List (Timestamp × String)
  | .push span => if a.makes span then [span.address a.config] else []
  | .advance _ => []
  | .discard => []

/-- The addresses of the open slots that an operation discards. -/
def discards (a : Assembler) : Operation → List (Timestamp × String)
  | .push _ => []
  | .advance _ => []
  | .discard => opened a.slots

theorem fates_prepare (h : a.Sound) (o : Operation) : (opened a.slots ++ a.made o).Perm
    (opened (a.prepare o).slots ++ (dropped (a.remarks o) ++ a.discards o)) := by
  cases o with
  | push span =>
    rw [prepare_push, remarks_push, made, discards, List.append_nil]
    by_cases hclosed : a.phase (a.windowOf span.startTime) = .closed
    · have hlate : ¬a.makes span := fun hmakes => by
        rw [makes, late, decide_eq_false_iff_not] at hmakes
        exact hmakes.1 hclosed
      rw [if_pos hclosed, if_pos hclosed, if_neg hlate]
      exact List.Perm.refl _
    · have hmakes : a.makes span ↔ ∀ s ∈ a.slots, s.address ≠ span.address a.config :=
        and_iff_right (decide_eq_false hclosed)
      rw [if_neg hclosed, if_neg hclosed]
      simp only [hmakes]
      exact opened_place h.ordered
  | advance time => simp [made, discards, remarks, prepare, raise, dropped]
  | discard =>
    show (opened a.slots ++ []).Perm ([] ++ ([] ++ opened a.slots))
    simp

theorem fates_close (h : a.Sound) : (opened a.slots).Perm (opened a.close.1.slots
    ++ (a.close.2.traces.map (Trace.address a.config) ++ dropped a.close.2.notices)) := by
  have hexpired := opened_emits (c := a.config) fun s (hs : s ∈ a.slots.filter a.expired) =>
    h.slots s (List.mem_filter.mp hs).1
  have hsplit : (opened a.slots).Perm
      (opened (a.slots.filter a.expired) ++ opened (a.slots.filter fun s => !a.expired s)) := by
    rw [← opened_append]
    exact ((List.filter_append_perm a.expired a.slots).symm.filter _).map _
  rw [close_slots h, close_traces h, close_notices h]
  exact hsplit.trans (List.perm_append_comm.trans (hexpired.append_left _))

section
variable (h : a.Sound) (hs : a.Settled)
include h hs

/-- Slots that were open and one that is made stay open, are emitted, dropped or discarded. -/
theorem fates_perform (o : Operation) : (opened a.slots ++ a.made o).Perm
    (opened (a.perform o).1.slots ++ ((a.perform o).2.traces.map (Trace.address a.config)
      ++ (dropped (a.perform o).2.notices ++ a.discards o))) := by
  have hprepare := List.perm_iff_count.mp (fates_prepare h o)
  have hclose := List.perm_iff_count.mp (fates_close (h.prepare o))
  rw [(perform_eq_close h hs o).1, (perform_eq_close h hs o).2, perform_notices h hs,
    dropped_append, List.perm_iff_count]
  intro p
  have := hprepare p
  have := hclose p
  rw [prepare_config] at this
  simp only [List.count_append] at *
  omega

end

/-! ### Whole runs -/

/-- What is said of every operation of a run, one after the other. -/
def along {α : Type} (f : Assembler → Operation → List α) (a : Assembler) : List Operation → List α
  | [] => []
  | o :: ops => f a o ++ along f (a.perform o).1 ops

section
variable (h : a.Sound) (hs : a.Settled)
include h hs

theorem fates_run (ops : List Operation) : (opened a.slots ++ a.along made ops).Perm
    (opened (a.run ops).1.slots ++ ((a.run ops).2.traces.map (Trace.address a.config)
      ++ (dropped (a.run ops).2.notices ++ a.along discards ops))) := by
  induction ops generalizing a with
  | nil => exact List.Perm.refl _
  | cons o ops ih =>
    have hstep := List.perm_iff_count.mp (fates_perform h hs o)
    have hrest := List.perm_iff_count.mp (ih (h.perform hs o) (hs.perform h o))
    rw [Assembler.run, Emission.traces_append, Emission.notices_append, List.map_append,
      dropped_append, along, along, List.perm_iff_count]
    intro p
    have := hstep p
    have := hrest p
    rw [perform_config h hs] at this
    simp only [List.count_append] at *
    omega

end

/-! ### Reports -/

/-- Slots report each trace that they pass on. -/
theorem raised_reconstructed_emit (c : WindowConfig) (slots : List Slot) :
    Counters.raised .reconstructedTraces (slots.flatMap fun s => (s.emit c).notices)
      = (slots.flatMap fun s => (s.emit c).traces).length := by
  induction slots with
  | nil => rfl
  | cons s slots ih =>
    have hone : Counters.raised .reconstructedTraces (s.emit c).notices
        = (s.emit c).traces.length := by
      unfold Slot.emit
      split
      · rfl
      · split <;> rfl
    rw [List.flatMap_cons, List.flatMap_cons, Counters.raised_append, List.length_append, hone, ih]

section
variable (h : a.Sound) (hs : a.Settled)
include h hs

theorem raised_reconstructed_perform (o : Operation) :
    Counters.raised .reconstructedTraces (a.perform o).2.notices = (a.perform o).2.traces.length := by
  have hremarks : Counters.raised .reconstructedTraces (a.remarks o) = 0 := by
    refine Counters.raised_eq_zero fun n hn => ?_
    rcases count_remarks a o n hn with e | e | ⟨-, rfl⟩
    · simp [e]
    · simp [e]
    · exact Counter.noConfusion
  rw [perform_notices h hs, Counters.raised_append, hremarks, Nat.zero_add,
    (perform_eq_close h hs o).2, close_notices (h.prepare o), close_traces (h.prepare o),
    raised_reconstructed_emit]

theorem raised_reconstructed_run (ops : List Operation) :
    Counters.raised .reconstructedTraces (a.run ops).2.notices = (a.run ops).2.traces.length := by
  induction ops generalizing a with
  | nil => rfl
  | cons o ops ih =>
    rw [run, Emission.notices_append, Emission.traces_append, Counters.raised_append,
      List.length_append, raised_reconstructed_perform h hs,
      ih (h.perform hs o) (hs.perform h o)]

/-- Nothing is reported as discarded but the slots that are dropped. -/
theorem raised_discarded_perform (o : Operation) :
    Counters.raised .discardedWindows (a.perform o).2.notices
      = if o = .discard then a.openWindows else 0 := by
  have hclose : Counters.raised .discardedWindows (a.prepare o).close.2.notices = 0 := by
    refine Counters.raised_eq_zero fun n hn => ?_
    rcases count_close (h.prepare o) n hn with e | e <;> simp [e]
  rw [perform_notices h hs, Counters.raised_append, hclose, Nat.add_zero]
  split
  · next ho =>
    rw [ho]
    simp [remarks, Counters.raised, Notice.count, Notice.amount]
  · next ho =>
    refine Counters.raised_eq_zero fun n hn => ?_
    rcases count_remarks a o n hn with e | e | ⟨e, -⟩
    · simp [e]
    · simp [e]
    · exact absurd e ho

theorem length_discards_run (ops : List Operation) :
    (a.along discards ops).length = Counters.raised .discardedWindows (a.run ops).2.notices := by
  induction ops generalizing a with
  | nil => rfl
  | cons o ops ih =>
    rw [run, Emission.notices_append, Counters.raised_append, along, List.length_append,
      ih (h.perform hs o) (hs.perform h o), raised_discarded_perform h hs]
    cases o with
    | discard =>
      rw [if_pos rfl, discards, length_opened]
    | _ => rfl

end

/-! ### One slot -/

/-- There is no second slot for an accepted span. -/
theorem Gathers.not_mem_made (h : a.Gathers known) (hsound : a.Sound) (hx : x ∈ known)
    (o : Operation) : x.address a.config ∉ a.made o := by
  intro hmem
  cases o with
  | push span =>
    rw [made] at hmem
    split at hmem
    · next hmakes =>
      obtain ⟨hlate, hnone⟩ := hmakes
      have hsame := List.mem_singleton.mp hmem
      rw [late, decide_eq_false_iff_not, phase_eq_closed_iff hsound.valid, Int64.not_le] at hlate
      have hfirst := h.filter_eq_nil hsound hlate hnone
      exact List.filter_eq_nil_iff.mp hfirst x hx (decide_eq_true hsame)
    · simp at hmem
  | advance time => simp [made] at hmem
  | discard => simp [made] at hmem

theorem remember_subset {o : Operation} (ho : o ≠ .discard) : known ⊆ a.remember known o := by
  cases o with
  | push span =>
    rw [remember]
    split
    · exact List.Subset.refl _
    · exact List.subset_append_left _ _
  | advance time => exact List.Subset.refl _
  | discard => exact absurd rfl ho

section
variable (hsound : a.Sound) (hsettled : a.Settled)
include hsound hsettled

theorem Gathers.not_mem_made_run (h : a.Gathers known) (hx : x ∈ known) {ops : List Operation}
    (hops : .discard ∉ ops) : x.address a.config ∉ a.along made ops := by
  induction ops generalizing a known with
  | nil => exact List.not_mem_nil
  | cons o ops ih =>
    rw [List.mem_cons, not_or] at hops
    rw [along, List.mem_append, not_or, ← perform_config hsound hsettled o]
    refine ⟨?_, ih (hsound.perform hsettled o) (hsettled.perform hsound o)
      (h.perform hsound hsettled o) (remember_subset (Ne.symm hops.1) hx) hops.2⟩
    rw [perform_config hsound hsettled]
    exact h.not_mem_made hsound hx o

omit hsound hsettled in
theorem discards_run_of_not_mem {ops : List Operation} (hops : .discard ∉ ops) :
    a.along discards ops = [] := by
  induction ops generalizing a with
  | nil => rfl
  | cons o ops ih =>
    rw [List.mem_cons, not_or] at hops
    rw [along, ih hops.2, List.append_nil]
    cases o with
    | discard => exact absurd rfl hops.1
    | _ => rfl

/-- Up to the next discard the slot that a span has made is emitted, dropped or open, one of the
three and that once. -/
theorem single_fate (h : a.Gathers known) (hx : a.makes x) {ops : List Operation}
    (hops : .discard ∉ ops) :
    ((a.run (.push x :: ops)).2.traces.map (Trace.address a.config)).count (x.address a.config)
      + (dropped (a.run (.push x :: ops)).2.notices).count (x.address a.config)
      + (opened (a.run (.push x :: ops)).1.slots).count (x.address a.config) = 1 := by
  have hfates := List.perm_iff_count.mp (fates_run hsound hsettled (.push x :: ops)) (x.address a.config)
  have hbefore : (opened a.slots).count (x.address a.config) = 0 := by
    refine List.count_eq_zero.mpr fun hmem => ?_
    obtain ⟨s, hs, haddress⟩ := List.mem_map.mp hmem
    exact hx.2 s (List.mem_filter.mp hs).1 haddress
  have hmade : (a.along made (.push x :: ops)).count (x.address a.config) = 1 := by
    have hknown : x ∈ a.remember known (.push x) := by
      rw [remember, hx.1]
      simp
    have hlater := (h.perform hsound hsettled (.push x)).not_mem_made_run
      (hsound.perform hsettled _) (hsettled.perform hsound _) hknown hops
    rw [perform_config hsound hsettled] at hlater
    rw [along, made, if_pos hx, List.count_append, List.count_singleton_self,
      List.count_eq_zero.mpr hlater]
  have hdiscards : a.along discards (.push x :: ops) = [] :=
    discards_run_of_not_mem (by simpa using hops)
  rw [hdiscards] at hfates
  simp only [List.count_append, List.count_nil] at hfates
  omega

/-- A slot whose trace was dropped is of no further account. -/
theorem dropped_for_good (h : a.Gathers known) (hx : a.makes x) {life later : List Operation}
    (hlife : .discard ∉ life) (hlater : .discard ∉ later)
    (hdropped : x.address a.config ∈ dropped (a.run (.push x :: life)).2.notices) :
    let b := (a.run (.push x :: life)).1.run later
    x.address a.config ∉ b.2.traces.map (Trace.address a.config) ∧
      x.address a.config ∉ dropped b.2.notices ∧ x.address a.config ∉ opened b.1.slots := by
  have hnone : .discard ∉ life ++ later := by simp [hlife, hlater]
  have hwhole := single_fate hsound hsettled h hx hnone
  have hpositive := List.count_pos_iff.mpr hdropped
  rw [← List.cons_append, run_append, Emission.traces_append, Emission.notices_append,
    List.map_append, dropped_append, List.count_append, List.count_append] at hwhole
  simp only [← List.count_eq_zero]
  dsimp only at hwhole
  omega

end

section
variable (h : a.Sound) (hs : a.Settled) (hempty : a.slots = [])
include h hs hempty

/-- If there are no slots at first, the slots that were made are those that have one of the four
fates. -/
theorem made_perm (ops : List Operation) : (a.along made ops).Perm
    (opened (a.run ops).1.slots ++ ((a.run ops).2.traces.map (Trace.address a.config)
      ++ (dropped (a.run ops).2.notices ++ a.along discards ops))) := by
  have hfates := fates_run h hs ops
  rwa [hempty] at hfates

theorem length_made (ops : List Operation) : (a.along made ops).length
    = Counters.raised .reconstructedTraces (a.run ops).2.notices
      + Counters.raised .oversizedRecords (a.run ops).2.notices
      + Counters.raised .discardedWindows (a.run ops).2.notices + (a.run ops).1.openWindows := by
  have hlength := (made_perm h hs hempty ops).length_eq
  rw [List.length_append, List.length_append, List.length_append, List.length_map, length_opened,
    length_dropped, length_discards_run h hs, ← raised_reconstructed_run h hs] at hlength
  omega

end

/-- The slots that were made are those that emitted, were dropped, were discarded or are open, and
counters show how many of each; between two discards there is one slot at most at an address, with
one of these fates, and when it is dropped that is its fate for good. -/
theorem slots_accounted {c : WindowConfig} (h : new? c = .ok a) (ops : List Operation) :
    let traces := (a.run ops).2.traces
    let notices := (a.run ops).2.notices
    let counters := Counters.record {} notices
    (a.along made ops).Perm (opened (a.run ops).1.slots
      ++ (traces.map (Trace.address c) ++ (dropped notices ++ a.along discards ops))) ∧
    ((a.along made ops).length = Counters.raised .reconstructedTraces notices
        + Counters.raised .oversizedRecords notices + Counters.raised .discardedWindows notices
        + (a.run ops).1.openWindows ∧
      traces.length = Counters.raised .reconstructedTraces notices) ∧
    ((∀ k ∈ [Counter.reconstructedTraces, .oversizedRecords, .discardedWindows],
        Counters.raised k notices < UInt64.size) →
      (a.along made ops).length = (counters.get .reconstructedTraces).toNat
          + (counters.get .oversizedRecords).toNat + (counters.get .discardedWindows).toNat
          + (a.run ops).1.openWindows ∧
        traces.length = (counters.get .reconstructedTraces).toNat) ∧
    ∀ x life, (a.run ops).1.makes x → .discard ∉ life →
      let b := (a.run ops).1.run (.push x :: life)
      ((b.2.traces.map (Trace.address c)).count (x.address c)
        + (dropped b.2.notices).count (x.address c)
        + (opened b.1.slots).count (x.address c) = 1) ∧
      (x.address c ∈ dropped b.2.notices → ∀ later, .discard ∉ later →
        x.address c ∉ (b.1.run later).2.traces.map (Trace.address c) ∧
        x.address c ∉ dropped (b.1.run later).2.notices ∧
        x.address c ∉ opened (b.1.run later).1.slots) ∧
      b.1.perform .discard
        = ({ b.1 with slots := [] }, { notices := [.discarded (opened b.1.slots).length] }) := by
  obtain ⟨hc, rfl⟩ := new?_eq_ok_iff.mp h
  have hsound := sound_new hc
  have hsettled := settled_new c
  have htraces := raised_reconstructed_run hsound hsettled ops
  have hlength := length_made hsound hsettled rfl ops
  have hconfig : (run { config := c } ops).1.config = c := run_config hsound hsettled ops
  refine ⟨made_perm hsound hsettled rfl ops, ⟨hlength, htraces.symm⟩, fun hsmall => ?_,
    fun x life hx hlife => ⟨?_, fun hdropped later hlater => ?_, ?_⟩⟩
  · have hexact : ∀ k ∈ [Counter.reconstructedTraces, .oversizedRecords, .discardedWindows],
        ((Counters.record {} (run { config := c } ops).2.notices).get k).toNat
          = Counters.raised k (run { config := c } ops).2.notices := fun k hk => by
      rw [Counters.get_record_empty]
      exact Nat.mod_eq_of_lt (hsmall k hk)
    rw [hexact _ (by simp), hexact _ (by simp), hexact _ (by simp)]
    exact ⟨hlength, htraces.symm⟩
  · have hfate := single_fate (hsound.run hsettled ops) (hsettled.run hsound ops)
      ((gathers_new c).run hsound hsettled ops) hx hlife
    rwa [hconfig] at hfate
  · have hgood := dropped_for_good (hsound.run hsettled ops) (hsettled.run hsound ops)
      ((gathers_new c).run hsound hsettled ops) hx hlife hlater (by rwa [hconfig])
    rwa [hconfig] at hgood
  · rw [length_opened]
    rfl

/-- One trace outgrows the limit, one is discarded, one at the place of the first is emitted, and one
is open in the end; a further span changes nothing about the first. -/
theorem slots_accounted_after_discard :
    let a : Assembler := { config := { maxRecordSize := 400 } }
    let x : Span := { traceId := "a", startTime := 100 }
    let y : Span := { traceId := "b", startTime := 300 }
    let z : Span := { traceId := "a", startTime := 30000 }
    let ops : List Operation :=
      [.push x, .push x, .push y, .push x, .discard, .push x, .advance 20000, .push z]
    let counters := Counters.record {} (a.run ops).2.notices
    ((a.along made ops).length = 4 ∧ (a.run ops).1.openWindows = 1 ∧
      (counters.get .reconstructedTraces).toNat + (counters.get .oversizedRecords).toNat
        + (counters.get .discardedWindows).toNat = 3) ∧
    x.address a.config ∉ opened (a.run [.push x, .push x, .push y, .push x]).1.slots := by
  intro a x y z ops counters
  have hnew : new? a.config = .ok a := rfl
  have hrun : ((a.along made ops).length = 4 ∧ (a.run ops).1.openWindows = 1 ∧
      ∀ k ∈ [Counter.reconstructedTraces, .oversizedRecords, .discardedWindows],
        Counters.raised k (a.run ops).2.notices < UInt64.size) ∧
      a.makes x ∧ x.address a.config ∈ dropped (a.run [.push x, .push x]).2.notices := by
    decide +kernel
  clear_value a x y z
  obtain ⟨⟨hmade, hopen, hsmall⟩, hmakes, hdropped⟩ := hrun
  obtain ⟨-, -, hexact, -⟩ := slots_accounted hnew ops
  obtain ⟨-, -, -, hfate⟩ := slots_accounted hnew []
  refine ⟨⟨hmade, hopen, ?_⟩, ?_⟩
  · have hsum := (hexact hsmall).1
    simp only [counters]
    omega
  · obtain ⟨-, hgood, -⟩ := hfate x [.push x] hmakes (by simp)
    exact (hgood hdropped [.push y, .push x] (by simp)).2.2

end Assembler
end CallTrace
