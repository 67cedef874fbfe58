import CallTrace.Pipeline.Routing
import CallTrace.Proofs.Window.Run
import Mathlib.Data.List.Perm.Basic

/-! # An assembler in parts

The keys of an assembler can be split among several that share its time: each holds the slots of
its keys (`Assembler.PartOf`).  A span is then performed by the part of its key alone, and the
others are told the time if it is a new one (`Input.share`).  Performing its share, a part stays a
part and does its part of what the whole does (`Assembler.PartOf.run_share`).  Over a whole stream
the parts together emit and remark what the whole does, and hold what it holds
(`Assembler.traces_run_shares_perm`, `Assembler.notices_run_shares_perm`,
`Assembler.slots_parts_perm`). -/

namespace List
variable {α : Type}

/-- Lists that are split by a number can be put together again. -/
theorem flatMap_filter_perm {l : List α} {f : α → Nat} {n : Nat} (h : ∀ x ∈ l, f x < n)
    (g : α → List β) :
    ((range n).flatMap fun i => (l.filter fun x => f x = i).flatMap g).Perm (l.flatMap g) := by
  induction l with
  | nil => simp
  | cons x l ih =>
    have hl : ∀ y ∈ l, f y < n := fun y hy => h y (.tail _ hy)
    have hsplit : ∀ i, ((x :: l).filter fun x => f x = i).flatMap g
        = (if f x = i then g x else []) ++ (l.filter fun x => f x = i).flatMap g := by
      intro i
      by_cases hi : f x = i <;> simp [hi]
    simp only [hsplit]
    refine (flatMap_append_perm _ _ _).symm.trans ?_
    rw [flatMap_ite_eq nodup_range (mem_range.mpr (h x mem_cons_self)), flatMap_cons]
    exact (ih hl).append_left _

end List

namespace CallTrace

/-- What a stream brings. -/
inductive Input where
  | span (s : Span)
  | time (t : Timestamp)
deriving DecidableEq, Repr

namespace Input

/-- What one assembler does about an input. -/
def operation : Input → Operation
  | span s => .push s
  | time t => .advance t

def eventTime : Input → Timestamp
  | span s => s.startTime
  | time t => t

/-- The part that has something to say about an input. -/
def home (n : Nat) : Input → Nat
  | span s => partitionOf s.windowKey n
  | time _ => 0

/-- What part `i` of `n` does about an input, if `known` is the highest time before it. -/
def share (n i : Nat) (known : Timestamp) : Input → List Operation
  | span s =>
    (if partitionOf s.windowKey n = i then [.push s] else [])
      ++ if known < s.startTime then [.advance s.startTime] else []
  | time t => [.advance t]

/-- What part `i` of `n` does about a stream. -/
def shares (n i : Nat) : Timestamp → List Input → List Operation
  | _, [] => []
  | known, x :: xs => x.share n i known ++ shares n i (max known x.eventTime) xs

end Input

namespace Assembler
variable {n i : Nat} {a b : Assembler}

/-- The times of the operations of a stream add up to its highest. -/
theorem time_prepare_operation (hb : b.config.Valid) (x : Input) :
    (b.prepare x.operation).time = max b.time x.eventTime := by
  cases x with
  | span s =>
    show (b.prepare (.push s)).time = max b.time s.startTime
    rw [prepare_push]
    split
    · next hclosed =>
      have hle : s.startTime ≤ b.time := Int64.le_trans (WindowConfig.le_closingTime hb s.startTime)
        ((phase_eq_closed_iff hb s.startTime).mp hclosed)
      rw [Timestamp.max_def]
      grind
    · exact time_raise b s.startTime
  | time t => exact time_raise b t

theorem time_perform_operation (hb : b.Sound) (hsettled : b.Settled) (x : Input) :
    (b.perform x.operation).1.time = max b.time x.eventTime := by
  rw [(perform_eq_close hb hsettled _).1, close_time, time_prepare_operation hb.valid]

/-- `a` holds the slots of part `i` of `n` of `b`, and knows the time of `b`. -/
structure PartOf (n i : Nat) (a b : Assembler) : Prop where
  config_eq : a.config = b.config
  time_eq : a.time = b.time
  slots_eq : a.slots = b.slots.filter fun s => partitionOf s.key n = i

/-- The slots of a part whose windows are closed. -/
def closing (n i : Nat) (b : Assembler) : List Slot :=
  (b.slots.filter b.expired).filter fun s => partitionOf s.key n = i

namespace PartOf

theorem sound (h : a.PartOf n i b) (hb : b.Sound) : a.Sound where
  valid := h.config_eq ▸ hb.valid
  ordered := by
    rw [h.slots_eq]
    exact hb.ordered.filter _
  slots s hs := by
    rw [h.slots_eq] at hs
    rw [h.config_eq]
    exact hb.slots s (List.mem_filter.mp hs).1

theorem settled (h : a.PartOf n i b) (hb : b.Settled) : a.Settled := by
  intro s hs
  rw [h.slots_eq] at hs
  rw [h.config_eq, h.time_eq]
  exact hb s (List.mem_filter.mp hs).1

theorem expired_eq (h : a.PartOf n i b) (hb : b.Sound) : a.expired = b.expired := by
  funext s
  rw [Bool.eq_iff_iff, expired_iff (h.sound hb).valid, expired_iff hb.valid, h.config_eq,
    h.time_eq]

theorem close (h : a.PartOf n i b) (hb : b.Sound) : a.close.1.PartOf n i b.close.1 where
  config_eq := h.config_eq
  time_eq := h.time_eq
  slots_eq := by
    rw [close_slots (h.sound hb), close_slots hb, h.expired_eq hb, h.slots_eq]
    rw [List.filter_filter, List.filter_filter]
    simp only [Bool.and_comm]

/-- What a part closes is its part of what the whole closes. -/
theorem filter_expired (h : a.PartOf n i b) (hb : b.Sound) :
    a.slots.filter a.expired = b.closing n i := by
  rw [closing, h.expired_eq hb, h.slots_eq, List.filter_filter, List.filter_filter]
  simp only [Bool.and_comm]

theorem close_traces (h : a.PartOf n i b) (hb : b.Sound) :
    a.close.2.traces = (b.closing n i).flatMap fun s => (s.emit b.config).traces := by
  rw [Assembler.close_traces (h.sound hb), h.filter_expired hb, h.config_eq]

theorem close_notices (h : a.PartOf n i b) (hb : b.Sound) :
    a.close.2.notices = (b.closing n i).flatMap fun s => (s.emit b.config).notices := by
  rw [Assembler.close_notices (h.sound hb), h.filter_expired hb, h.config_eq]

/-! ### Spans -/

theorem phase_eq_closed_iff (h : a.PartOf n i b) (hb : b.Sound) (t : Timestamp) :
    a.phase (a.windowOf t) = .closed ↔ b.phase (b.windowOf t) = .closed := by
  rw [Assembler.phase_eq_closed_iff (h.sound hb).valid, Assembler.phase_eq_closed_iff hb.valid,
    windowOf, windowOf, h.config_eq, h.time_eq]

/-- A part does about a span of its keys what the whole does. -/
theorem prepare_own (h : a.PartOf n i b) (hb : b.Sound) {s : Span}
    (hs : partitionOf s.windowKey n = i) :
    (a.prepare (.push s)).PartOf n i (b.prepare (.push s)) ∧
      a.remarks (.push s) = b.remarks (.push s) := by
  have hwindow : a.windowOf s.startTime = b.windowOf s.startTime := by
    rw [windowOf, windowOf, h.config_eq]
  have hplace : Slot.place b.config.maxRecordSize (b.windowOf s.startTime) s a.slots
      = ((Slot.place b.config.maxRecordSize (b.windowOf s.startTime) s b.slots).1.filter
          (fun t => partitionOf t.key n = i),
        (Slot.place b.config.maxRecordSize (b.windowOf s.startTime) s b.slots).2) := by
    rw [h.slots_eq]
    exact Slot.filter_place_of_pos (P := fun key => partitionOf key n = i) hb.ordered
      (by simpa using hs)
  rw [prepare_push, prepare_push, remarks_push, remarks_push]
  by_cases hclosed : b.phase (b.windowOf s.startTime) = .closed
  · have hclosed' := (h.phase_eq_closed_iff hb s.startTime).mpr hclosed
    rw [if_pos hclosed, if_pos hclosed, if_pos hclosed', if_pos hclosed', hwindow]
    exact ⟨h, rfl⟩
  · have hclosed' := mt (h.phase_eq_closed_iff hb s.startTime).mp hclosed
    rw [if_neg hclosed, if_neg hclosed, if_neg hclosed', if_neg hclosed', hwindow, h.config_eq,
      hplace]
    refine ⟨⟨h.config_eq, ?_, ?_⟩, rfl⟩
    · show (a.raise s.startTime).time = (b.raise s.startTime).time
      rw [time_raise, time_raise, h.time_eq]
    · show (Slot.place a.config.maxRecordSize (a.windowOf s.startTime) s a.slots).1 = _
      rw [hwindow, h.config_eq, hplace]
      rfl

/-- The other parts need to know no more of a span than its time. -/
theorem prepare_other (h : a.PartOf n i b) (hb : b.Sound) {s : Span}
    (hs : partitionOf s.windowKey n ≠ i) :
    (a.raise s.startTime).PartOf n i (b.prepare (.push s)) where
  config_eq := h.config_eq.trans (prepare_config b _).symm
  time_eq := by
    rw [time_raise, h.time_eq]
    exact (time_prepare_operation hb.valid (.span s)).symm
  slots_eq := by
    rw [prepare_push]
    split
    · exact h.slots_eq
    · show a.slots = (Slot.place _ _ s b.slots).1.filter fun t => partitionOf t.key n = i
      rw [h.slots_eq]
      exact (Slot.filter_place_of_neg (P := fun key => partitionOf key n = i) (by simpa using hs)).symm

/-- A time that is known already makes no difference to a part. -/
theorem raise_iff {t : Timestamp} (ht : t ≤ a.time) :
    (a.raise t).PartOf n i b ↔ a.PartOf n i b := by
  have htime : (a.raise t).time = a.time := by
    rw [time_raise, Timestamp.max_def]
    grind
  constructor
  · intro h
    exact ⟨h.config_eq, htime ▸ h.time_eq, h.slots_eq⟩
  · intro h
    exact ⟨h.config_eq, htime.trans h.time_eq, h.slots_eq⟩

/-! ### Inputs -/

/-- What a part does when the whole performs an input: it closes what the whole closes of its
slots, and remarks on the input if it is at home there. -/
structure Acts (n i : Nat) (b : Assembler) (x : Input) (r : Assembler × Emission) : Prop where
  part : r.1.PartOf n i (b.perform x.operation).1
  traces : r.2.traces
    = ((b.prepare x.operation).closing n i).flatMap fun s => (s.emit b.config).traces
  notices : r.2.notices = (if x.home n = i then b.remarks x.operation else [])
    ++ ((b.prepare x.operation).closing n i).flatMap fun s => (s.emit b.config).notices

section
variable (h : a.PartOf n i b) (hb : b.Sound) (hsettled : b.Settled)
include h hb hsettled

theorem close_eq : a.close = (a, {}) := close_of_settled (h.sound hb) (h.settled hsettled)

/-- Telling a part a time that is known changes nothing but that it has been told. -/
theorem advance_known {t : Timestamp} (ht : t ≤ b.time) :
    (a.perform (.advance t)).1.PartOf n i b ∧ (a.perform (.advance t)).2 = {} := by
  have hraised := (raise_iff (h.time_eq ▸ ht)).mpr h
  rw [show a.perform (.advance t) = (a.raise t).close from rfl, hraised.close_eq hb hsettled]
  exact ⟨hraised, rfl⟩

omit h in
/-- A part that only has to be closed. -/
theorem acts_close {x : Input} (hprepared : a.PartOf n i (b.prepare x.operation))
    (hsilent : (if x.home n = i then b.remarks x.operation else []) = []) :
    Acts n i b x a.close := by
  have hsound := hb.prepare x.operation
  refine ⟨?_, ?_, ?_⟩
  · rw [(perform_eq_close hb hsettled x.operation).1]
    exact hprepared.close hsound
  · rw [hprepared.close_traces hsound, prepare_config]
  · rw [hprepared.close_notices hsound, prepare_config, hsilent]
    rfl

theorem acts_own {s : Span} (hs : partitionOf s.windowKey n = i) :
    Acts n i b (.span s) (a.perform (.push s)) := by
  have hsound := hb.prepare (.push s)
  obtain ⟨hprepared, hremarks⟩ := h.prepare_own hb hs
  obtain ⟨hclose, htraces⟩ := perform_eq_close (h.sound hb) (h.settled hsettled) (.push s)
  have hnotices := perform_notices (h.sound hb) (h.settled hsettled) (.push s)
  refine ⟨?_, ?_, ?_⟩
  · rw [hclose, Input.operation, (perform_eq_close hb hsettled (.push s)).1]
    exact hprepared.close hsound
  · rw [htraces, hprepared.close_traces hsound, prepare_config]
    rfl
  · rw [hnotices, hprepared.close_notices hsound, prepare_config, hremarks, Input.home, if_pos hs]
    rfl

omit h in
/-- Being told the time of an input after the input itself. -/
theorem Acts.tell {x : Input} {r : Assembler × Emission} (hr : Acts n i b x r) :
    Acts n i b x ((r.1.perform (.advance x.eventTime)).1,
      r.2 ++ (r.1.perform (.advance x.eventTime)).2) := by
  have hknown : x.eventTime ≤ (b.perform x.operation).1.time := by
    rw [time_perform_operation hb hsettled, Timestamp.max_def]
    grind
  obtain ⟨hpart, hsilent⟩ := hr.part.advance_known (hb.perform hsettled _)
    (hsettled.perform hb _) hknown
  rw [hsilent, Emission.append_empty]
  exact ⟨hpart, hr.traces, hr.notices⟩

/-- Performing its share of an input, a part does its part. -/
theorem run_share (x : Input) : Acts n i b x (a.run (x.share n i b.time)) := by
  cases x with
  | time t =>
    have hraised : (a.raise t).PartOf n i (b.prepare (.advance t)) := by
      refine ⟨h.config_eq, ?_, h.slots_eq⟩
      rw [time_raise, h.time_eq]
      exact (time_prepare_operation hb.valid (.time t)).symm
    rw [Input.share, run_singleton]
    refine acts_close hb hsettled hraised ?_
    split <;> rfl
  | span s =>
    by_cases hs : partitionOf s.windowKey n = i
    · have hown := h.acts_own hb hsettled hs
      rw [Input.share, if_pos hs, run_append, run_singleton]
      split
      · rw [run_singleton]
        exact hown.tell hb hsettled
      · rw [run, Emission.append_empty]
        exact hown
    · have hraised := h.prepare_other hb hs
      have hsilent : (if (Input.span s).home n = i then b.remarks (.push s) else []) = [] :=
        if_neg hs
      rw [Input.share, if_neg hs, List.nil_append]
      split
      · rw [run_singleton]
        exact acts_close hb hsettled hraised hsilent
      · next hknown =>
        have hle : s.startTime ≤ a.time := h.time_eq ▸ Int64.not_lt.mp hknown
        have hacts := acts_close hb hsettled ((raise_iff hle).mp hraised) hsilent
        rwa [h.close_eq hb hsettled] at hacts

theorem run_shares (xs : List Input) :
    (a.run (Input.shares n i b.time xs)).1.PartOf n i (b.run (xs.map Input.operation)).1 := by
  induction xs generalizing a b with
  | nil => exact h
  | cons x xs ih =>
    have hperformed := (h.run_share hb hsettled x).part
    rw [Input.shares, run_append, ← time_perform_operation hb hsettled]
    exact ih hperformed (hb.perform hsettled _) (hsettled.perform hb _)

end

end PartOf

/-! ### All parts together -/

section
variable {parts : Nat → Assembler} (hn : 0 < n) (h : ∀ i < n, (parts i).PartOf n i b)
include hn h

/-- The slots of the parts are those of the whole. -/
theorem slots_parts_perm : ((List.range n).flatMap fun i => (parts i).slots).Perm b.slots := by
  have hslots : ∀ i ∈ List.range n, (parts i).slots
      = (b.slots.filter fun s => partitionOf s.key n = i).flatMap fun s => [s] := by
    intro i hi
    rw [(h i (List.mem_range.mp hi)).slots_eq, List.flatMap_singleton']
  rw [List.flatMap_congr hslots]
  have := List.flatMap_filter_perm (l := b.slots) (fun s _ => partitionOf_lt s.key hn) (fun s => [s])
  rwa [List.flatMap_singleton'] at this

variable (hb : b.Sound) (hsettled : b.Settled)
include hb hsettled

theorem traces_run_share_perm (x : Input) :
    ((List.range n).flatMap fun i => ((parts i).run (x.share n i b.time)).2.traces).Perm
      (b.perform x.operation).2.traces := by
  rw [List.flatMap_congr fun i hi =>
      ((h i (List.mem_range.mp hi)).run_share hb hsettled x).traces,
    (perform_eq_close hb hsettled x.operation).2, close_traces (hb.prepare _), prepare_config]
  exact List.flatMap_filter_perm (fun s _ => partitionOf_lt s.key hn) _

theorem notices_run_share_perm (x : Input) :
    ((List.range n).flatMap fun i => ((parts i).run (x.share n i b.time)).2.notices).Perm
      (b.perform x.operation).2.notices := by
  have hhome : x.home n ∈ List.range n := by
    rw [List.mem_range]
    cases x with
    | span s => exact partitionOf_lt s.windowKey hn
    | time t => exact hn
  rw [List.flatMap_congr fun i hi =>
      ((h i (List.mem_range.mp hi)).run_share hb hsettled x).notices,
    perform_notices hb hsettled, close_notices (hb.prepare _), prepare_config]
  refine (List.flatMap_append_perm _ _ _).symm.trans ?_
  rw [List.flatMap_ite_eq List.nodup_range hhome]
  exact (List.flatMap_filter_perm (fun s _ => partitionOf_lt s.key hn) _).append_left _

/-- The parts emit what the whole emits, each its share. -/
theorem traces_run_shares_perm (xs : List Input) :
    ((List.range n).flatMap fun i => ((parts i).run (Input.shares n i b.time xs)).2.traces).Perm
      (b.run (xs.map Input.operation)).2.traces := by
  induction xs generalizing parts b with
  | nil => simp [Input.shares, run]
  | cons x xs ih =>
    have hnow := traces_run_share_perm hn h hb hsettled x
    have hlater := ih (fun i hi => ((h i hi).run_share hb hsettled x).part)
      (hb.perform hsettled x.operation) (hsettled.perform hb x.operation)
    rw [time_perform_operation hb hsettled] at hlater
    simp only [Input.shares, run_append, Emission.traces_append]
    exact (List.flatMap_append_perm _ _ _).symm.trans (hnow.append hlater)

theorem notices_run_shares_perm (xs : List Input) :
    ((List.range n).flatMap fun i => ((parts i).run (Input.shares n i b.time xs)).2.notices).Perm
      (b.run (xs.map Input.operation)).2.notices := by
  induction xs generalizing parts b with
  | nil => simp [Input.shares, run]
  | cons x xs ih =>
    have hnow := notices_run_share_perm hn h hb hsettled x
    have hlater := ih (fun i hi => ((h i hi).run_share hb hsettled x).part)
      (hb.perform hsettled x.operation) (hsettled.perform hb x.operation)
    rw [time_perform_operation hb hsettled] at hlater
    simp only [Input.shares, run_append, Emission.notices_append]
    exact (List.flatMap_append_perm _ _ _).symm.trans (hnow.append hlater)

end

end Assembler
end CallTrace
