import CallTrace.Proofs.Window.Watermark

/-! # What slots gather

The spans that an assembler accepts are kept in mind until the slots are discarded
(`Assembler.accepted`).  The window and the key of a span are the address of its slot
(`Span.address`), and unless it was dropped for its size a slot holds all accepted spans with its
address, in the order in which they came (`Assembler.Gathers`).  The invariant needs a second half:
an accepted span whose window is not closed has a slot, so a slot that is made has missed nothing.

Hence an emitted trace holds exactly the accepted spans of its key and window
(`Assembler.Gathers.spans_of_mem_perform`). -/

namespace CallTrace

/-- Where the slot of a span stands. -/
def Span.address (c : WindowConfig) (x : Span) : Timestamp × String :=
  ((c.windowOf x.startTime).start, x.windowKey)

theorem Span.filter_address_append (c : WindowConfig) (known : List Span) (x : Span)
    (p : Timestamp × String) : ((known ++ [x]).filter fun y => y.address c = p)
      = (known.filter fun y => y.address c = p) ++ if x.address c = p then [x] else [] := by
  simp [List.filter_cons]

namespace Slot
variable {c : WindowConfig} {limit : Nat} {window : Window} {span : Span} {s : Slot}

/-- A slot stands for a window, not only for the start of one. -/
theorem Sound.address_eq_iff (hc : c.Valid) (h : s.Sound c) : span.address c = s.address
    ↔ span.windowKey = s.key ∧ c.windowOf span.startTime = c.windowOf s.start := by
  constructor
  · intro e
    refine ⟨congrArg Prod.snd e, WindowConfig.windowOf_eq_of_start_eq hc ?_⟩
    exact (congrArg Prod.fst e).trans h.start_eq.symm
  · rintro ⟨hkey, hwindow⟩
    exact Prod.ext ((congrArg Window.start hwindow).trans h.start_eq) hkey

theorem Sound.filter_address (hc : c.Valid) (h : s.Sound c) (known : List Span) :
    (known.filter fun x => x.address c = s.address)
      = known.filter fun x => x.windowKey = s.key ∧ c.windowOf x.startTime = c.windowOf s.start :=
  List.filter_congr fun _ _ => decide_eq_decide.mpr (h.address_eq_iff hc)

theorem limited_of_open (h : (s.limited limit window).1.overflowed = false) :
    s.limited limit window = (s, []) := by
  unfold limited at h ⊢
  split
  · next hlarge =>
    rw [if_pos hlarge] at h
    exact absurd h (by simp)
  · rfl

theorem spans_first (h : (first limit window span).1.overflowed = false) :
    (first limit window span).1.trace.spans = [span] := by
  unfold first at h ⊢
  rw [limited_of_open h]
  simp

theorem spans_extend (h : (s.extend limit window span).1.overflowed = false) :
    s.overflowed = false ∧
      (s.extend limit window span).1.trace.spans = s.trace.spans ++ [span] := by
  unfold extend at h ⊢
  cases hs : s.overflowed with
  | true =>
    rw [hs, if_pos rfl, hs] at h
    exact absurd h (by simp)
  | false =>
    rw [hs, if_neg Bool.false_ne_true] at h
    rw [if_neg Bool.false_ne_true, limited_of_open h]
    exact ⟨rfl, Trace.spans_add ..⟩

end Slot

namespace Assembler
variable {a : Assembler} {known : List Span}

/-! ### Accepted spans -/

/-- The accepted spans that are kept in mind after an operation. -/
def remember (a : Assembler) (known : List Span) : Operation → List Span
  | .push span => if a.late span then known else known ++ [span]
  | .advance _ => known
  | .discard => []

/-- The spans that were accepted since the slots were last discarded, in the order in which they
came; if they never were, the spans known before come first. -/
def accepted (a : Assembler) (known : List Span) : List Operation → List Span
  | [] => known
  | o :: ops => (a.perform o).1.accepted (a.remember known o) ops

theorem accepted_append (a : Assembler) (known : List Span) (ops ops' : List Operation) :
    a.accepted known (ops ++ ops') = (a.run ops).1.accepted (a.accepted known ops) ops' := by
  induction ops generalizing a known with
  | nil => rfl
  | cons o ops ih => exact ih (a.perform o).1 (a.remember known o)

/-! ### The invariant -/

/-- A slot holds the accepted spans with its address, and every accepted span has a slot until its
window closes. -/
structure Gathers (known : List Span) (a : Assembler) : Prop where
  spans_eq : ∀ s ∈ a.slots, s.overflowed = false →
    s.trace.spans = known.filter fun x => x.address a.config = s.address
  covers : ∀ x ∈ known, a.time < a.config.closingTime (a.config.windowOf x.startTime) →
    ∃ s ∈ a.slots, s.address = x.address a.config

theorem gathers_new (c : WindowConfig) : Gathers [] { config := c } :=
  ⟨by simp, by simp⟩

namespace Gathers

theorem raise (h : Gathers known a) (t : Timestamp) : Gathers known (a.raise t) where
  spans_eq := h.spans_eq
  covers x hx hopen := by
    rw [time_raise] at hopen
    exact h.covers x hx (Int64.lt_of_le_of_lt Std.left_le_max hopen)

theorem close (h : Gathers known a) (hsound : a.Sound) : Gathers known a.close.1 where
  spans_eq s hs := by
    rw [close_slots hsound] at hs
    exact h.spans_eq s (List.mem_filter.mp hs).1
  covers x hx hopen := by
    obtain ⟨s, hs, haddress⟩ := h.covers x hx hopen
    refine ⟨s, ?_, haddress⟩
    have hstart : s.start = (a.config.windowOf x.startTime).start := congrArg Prod.fst haddress
    have hkept : ¬a.expired s = true := by
      rw [expired_iff hsound.valid, hstart, WindowConfig.windowOf_start hsound.valid]
      exact Int64.not_le.mpr hopen
    rw [close_slots hsound]
    exact List.mem_filter.mpr ⟨hs, by simpa using hkept⟩

/-- A span for which there is no slot is the first of its key and window. -/
theorem filter_eq_nil (h : Gathers known a) (hsound : a.Sound) {span : Span}
    (hopen : a.time < a.config.closingTime (a.config.windowOf span.startTime))
    (hnone : ∀ s ∈ a.slots, s.address ≠ span.address a.config) :
    (known.filter fun x => x.address a.config = span.address a.config) = [] := by
  rw [List.filter_eq_nil_iff]
  intro x hx hsame
  have hsame := of_decide_eq_true hsame
  have hwindow := WindowConfig.windowOf_eq_of_start_eq hsound.valid (congrArg Prod.fst hsame)
  obtain ⟨s, hs, haddress⟩ := h.covers x hx (hwindow ▸ hopen)
  exact hnone s hs (haddress.trans hsame)

/-- Every accepted span of a window that was not closed before has a slot. -/
theorem exists_slot_accept (h : Gathers known a) (hsound : a.Sound) {span x : Span}
    (hx : x ∈ known ++ [span])
    (hopen : a.time < a.config.closingTime (a.config.windowOf x.startTime)) :
    ∃ s ∈ (a.accept span).slots, s.address = x.address a.config := by
  refine List.mem_map.mp ((Slot.mem_map_address_place hsound.ordered).mpr ?_)
  rcases List.mem_append.mp hx with hx | hx
  · exact .inr (List.mem_map.mpr (h.covers x hx hopen))
  · obtain rfl := List.mem_singleton.mp hx
    exact .inl rfl

/-- What ties slots to the accepted spans with their addresses carries over when a span is accepted,
if it holds of a slot of that span alone and is kept when a slot is extended. -/
theorem forall_accept (h : Gathers known a) (hsound : a.Sound) {span : Span}
    (hopen : a.time < a.config.closingTime (a.config.windowOf span.startTime))
    {P : Slot → List Span → Prop}
    (hfirst : P (Slot.first a.config.maxRecordSize (a.windowOf span.startTime) span).1 [span])
    (hextend : ∀ s l, P s l →
      P (s.extend a.config.maxRecordSize (a.windowOf span.startTime) span).1 (l ++ [span]))
    (hall : ∀ s ∈ a.slots, P s (known.filter fun x => x.address a.config = s.address)) :
    ∀ s ∈ (a.accept span).slots,
      P s ((known ++ [span]).filter fun x => x.address a.config = s.address) := by
  intro s hs
  rw [Span.filter_address_append]
  rcases Slot.mem_place_of_ordered hsound.ordered hs with
    ⟨hs, hne⟩ | ⟨rfl, hnone⟩ | ⟨t, ht, haddress, rfl⟩
  · have hne : span.address a.config ≠ s.address := Ne.symm hne
    rw [if_neg hne, List.append_nil]
    exact hall s hs
  · -- a new slot: an earlier span with its address would have had a slot
    have haddress : span.address a.config
        = (Slot.first a.config.maxRecordSize (a.windowOf span.startTime) span).1.address :=
      Slot.address_first.symm
    rw [if_pos haddress, ← haddress, h.filter_eq_nil hsound hopen hnone]
    exact hfirst
  · -- a slot that is there already: the span comes last in it
    have haddress : span.address a.config = t.address := haddress.symm
    rw [Slot.address_extend, if_pos haddress]
    exact hextend t _ (hall t ht)

theorem accept (h : Gathers known a) (hsound : a.Sound) {span : Span}
    (hopen : a.time < a.config.closingTime (a.config.windowOf span.startTime)) :
    Gathers (known ++ [span]) (a.accept span) where
  spans_eq := by
    refine h.forall_accept (P := fun s l => s.overflowed = false → s.trace.spans = l) hsound hopen
      Slot.spans_first (fun s l hs hs_open => ?_) h.spans_eq
    obtain ⟨hs_before, hspans⟩ := Slot.spans_extend hs_open
    rw [hspans, hs hs_before]
  covers x hx hx_open := by
    refine h.exists_slot_accept hsound hx (Int64.lt_of_le_of_lt ?_ hx_open)
    rw [time_accept]
    exact Std.left_le_max

theorem prepare (h : Gathers known a) (hsound : a.Sound) (o : Operation) :
    Gathers (a.remember known o) (a.prepare o) := by
  cases o with
  | push span =>
    rw [prepare_push, remember, late]
    by_cases hclosed : a.phase (a.windowOf span.startTime) = .closed
    · rw [if_pos hclosed, if_pos (decide_eq_true hclosed)]
      exact h
    · rw [if_neg hclosed, if_neg (by simpa using hclosed)]
      rw [phase_eq_closed_iff hsound.valid] at hclosed
      exact h.accept hsound (Int64.not_le.mp hclosed)
  | advance time => exact h.raise time
  | discard => exact ⟨by simp [Assembler.prepare], by simp [remember]⟩

section
variable (h : Gathers known a) (hsound : a.Sound) (hsettled : a.Settled)
include h hsound hsettled

theorem perform (o : Operation) : Gathers (a.remember known o) (a.perform o).1 := by
  rw [(perform_eq_close hsound hsettled o).1]
  exact (h.prepare hsound o).close (hsound.prepare o)

theorem run (ops : List Operation) : Gathers (a.accepted known ops) (a.run ops).1 := by
  induction ops generalizing a known with
  | nil => exact h
  | cons o ops ih =>
    exact ih (h.perform hsound hsettled o) (hsound.perform hsettled o) (hsettled.perform hsound o)

/-- An emitted trace holds the accepted spans of its key and window, all of them and in order. -/
theorem spans_of_mem_perform {o : Operation} {t : Trace} (ht : t ∈ (a.perform o).2.traces) :
    t.spans = (a.remember known o).filter fun x => x.windowKey = t.windowKey ∧
      a.config.windowOf x.startTime = a.config.windowOf t.startTime := by
  rw [(perform_eq_close hsound hsettled o).2] at ht
  obtain ⟨s, hs, -, hs_open, -, rfl⟩ := (mem_close_traces (hsound.prepare o)).mp ht
  have hslot := (hsound.prepare o).slots s hs
  rw [(h.prepare hsound o).spans_eq s hs hs_open, hslot.windowKey_trace hs_open]
  rw [prepare_config] at hslot ⊢
  rw [hslot.windowOf_startTime hs_open, hslot.filter_address hsound.valid]

end

end Gathers

end Assembler
end CallTrace
