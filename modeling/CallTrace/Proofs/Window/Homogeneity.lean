import CallTrace.Proofs.Window.Run

/-! # Traces of one landscape and one trace id

Spans are grouped by their key, and a key can be read in more than one way: the separator may stand
at two places of it.  Two pairs of a landscape token and a trace id share a key exactly if one of
them overlaps the other (`windowKey_eq_iff`).

Emitted traces are homogeneous as long as no two pairs of those that come in overlap, and a pair
of overlapping pairs is enough to have their spans merged
(`Assembler.homogeneous_iff_no_overlap`). -/

namespace CallTrace

/-! ### Keys -/

/-- The key of `p` can be read as that of `q`, with a separator further to the right. -/
def Overlap (p q : String × String) : Prop :=
  (q.1 = p.1 ++ ":" ∧ p.2 = ":" ++ q.2) ∨
    ∃ m : String, q.1 = p.1 ++ "::" ++ m ∧ p.2 = m ++ "::" ++ q.2

theorem Overlap.key_eq {p q : String × String} (h : Overlap p q) :
    windowKey p.1 p.2 = windowKey q.1 q.2 := by
  unfold windowKey
  rcases h with ⟨h₁, h₂⟩ | ⟨m, h₁, h₂⟩
  · rw [h₁, h₂]
    apply String.toList_inj.mp
    simp
  · rw [h₁, h₂]
    simp [String.append_assoc]

theorem Overlap.token_ne {p q : String × String} (h : Overlap p q) : p.1 ≠ q.1 := by
  intro e
  rcases h with ⟨h, -⟩ | ⟨m, h, -⟩
  · simpa using congrArg String.length (e.trans h)
  · have := congrArg String.length (e.trans h)
    simp only [String.length_append] at this
    have : "::".length = 2 := rfl
    omega

/-- Where one token is a beginning of the other, the rest of it is a separator or part of one. -/
theorem overlap_of_key_eq {p q : String × String} {rest : List Char}
    (htoken : q.1.toList = p.1.toList ++ rest)
    (hid : ':' :: ':' :: p.2.toList = rest ++ ':' :: ':' :: q.2.toList) :
    p = q ∨ Overlap p q := by
  match rest with
  | [] =>
    left
    simp only [List.append_nil, List.nil_append, List.cons.injEq, true_and] at htoken hid
    exact Prod.ext (String.toList_inj.mp htoken.symm) (String.toList_inj.mp hid)
  | [x] =>
    right; left
    simp only [List.cons_append, List.nil_append, List.cons.injEq] at hid
    obtain ⟨rfl, -, hid⟩ := hid
    constructor
    · exact String.toList_inj.mp (by simp [htoken])
    · exact String.toList_inj.mp (by simp [hid])
  | x :: y :: m =>
    right; right
    simp only [List.cons_append, List.cons.injEq] at hid
    obtain ⟨rfl, rfl, hid⟩ := hid
    refine ⟨String.ofList m, String.toList_inj.mp ?_, String.toList_inj.mp ?_⟩
    · simp [htoken]
    · simp [hid]

theorem windowKey_eq_iff (p q : String × String) :
    windowKey p.1 p.2 = windowKey q.1 q.2 ↔ p = q ∨ Overlap p q ∨ Overlap q p := by
  constructor
  · intro h
    have h : p.1.toList ++ ':' :: ':' :: p.2.toList = q.1.toList ++ ':' :: ':' :: q.2.toList := by
      simpa [windowKey] using congrArg String.toList h
    rcases List.append_eq_append_iff.mp h with ⟨rest, htoken, hid⟩ | ⟨rest, htoken, hid⟩
    · rcases overlap_of_key_eq htoken hid with h | h
      · exact .inl h
      · exact .inr (.inl h)
    · rcases overlap_of_key_eq htoken hid with h | h
      · exact .inl h.symm
      · exact .inr (.inr h)
  · rintro (rfl | h | h)
    · rfl
    · exact h.key_eq
    · exact h.key_eq.symm

/-! ### Where the spans of a trace come from -/

/-- The landscape token and the trace id of a span. -/
def Span.ids (s : Span) : String × String := (s.landscapeToken, s.traceId)

/-- Whether all spans of a trace have its landscape token and its trace id. -/
def Trace.Homogeneous (t : Trace) : Prop :=
  ∀ s ∈ t.spans, s.landscapeToken = t.landscapeToken ∧ s.traceId = t.traceId

instance (t : Trace) : Decidable t.Homogeneous :=
  inferInstanceAs (Decidable (∀ s ∈ t.spans, _))

namespace Assembler
variable {P : Span → Prop}

/-- Whether all spans in slots have a property. -/
def HoldsOnly (P : Span → Prop) (a : Assembler) : Prop :=
  ∀ s ∈ a.slots, ∀ x ∈ s.trace.spans, P x

theorem HoldsOnly.prepare {a : Assembler} (h : a.HoldsOnly P) {o : Operation}
    (ho : ∀ span, o = .push span → P span) : (a.prepare o).HoldsOnly P := by
  have limited : ∀ {limit : Nat} {window : Window} (s : Slot), (∀ x ∈ s.trace.spans, P x) →
      ∀ x ∈ (s.limited limit window).1.trace.spans, P x := by
    intro limit window s hs
    unfold Slot.limited
    split
    · simp
    · exact hs
  cases o with
  | push span =>
    have hspan := ho span rfl
    rw [prepare_push]
    split
    · exact h
    · intro s hmem
      rcases Slot.mem_place hmem with hmem | rfl | ⟨t, ht, -, -, rfl⟩
      · exact h s hmem
      · exact limited _ (by simpa using hspan)
      · unfold Slot.extend
        split
        · exact h t ht
        · refine limited _ ?_
          simp only [Trace.spans_add, List.mem_append, List.mem_singleton]
          rintro x (hx | rfl)
          · exact h t ht x hx
          · exact hspan
  | advance time => exact h
  | discard => simp [Assembler.prepare, HoldsOnly]

/-- A trace that is emitted holds spans that were pushed. -/
theorem forall_spans_of_mem_run {a : Assembler} (h : a.Sound) (hs : a.Settled)
    (hP : a.HoldsOnly P) {ops : List Operation} (hops : ∀ span, .push span ∈ ops → P span)
    {t : Trace} (ht : t ∈ (a.run ops).2.traces) : ∀ x ∈ t.spans, P x := by
  induction ops generalizing a with
  | nil => simp [Assembler.run] at ht
  | cons o ops ih =>
    have hprepared : (a.prepare o).HoldsOnly P :=
      hP.prepare fun span e => hops span (e ▸ List.mem_cons_self)
    obtain ⟨e₁, e₂⟩ := perform_eq_close h hs o
    rcases List.mem_append.mp ht with ht | ht
    · rw [e₂] at ht
      obtain ⟨s, hmem, -, -, -, rfl⟩ := (mem_close_traces (h.prepare o)).mp ht
      exact hprepared s hmem
    · refine ih (h.perform hs o) (hs.perform h o) ?_ (fun span hmem => hops span (.tail _ hmem)) ht
      rw [e₁]
      intro s hmem
      rw [close_slots (h.prepare o)] at hmem
      exact hprepared s (List.mem_filter.mp hmem).1

end Assembler

/-- The pair of a trace is that of its first span. -/
theorem Trace.Assembled.homogeneous {c : WindowConfig} {t : Trace} (h : t.Assembled c)
    (hsame : ∀ x ∈ t.spans, ∀ y ∈ t.spans, x.ids = y.ids) : t.Homogeneous := by
  obtain ⟨x, spans, e⟩ := List.exists_cons_of_ne_nil h.spans_ne
  have hx : x ∈ t.spans := e ▸ List.mem_cons_self
  intro y hy
  have hids := hsame y hy x hx
  rw [h.trace_eq, e, Trace.ofSpans_cons]
  exact ⟨congrArg Prod.fst hids, congrArg Prod.snd hids⟩

/-! ### Overlapping pairs meet -/

/-- A span that says no more than what it belongs to. -/
def bareSpan (p : String × String) : Span := { landscapeToken := p.1, traceId := p.2 }

namespace Assembler

section
variable (p q : String × String)

/-- Windows with room for a bare span of each of two pairs. -/
def roomy : WindowConfig where
  maxRecordSize := (Trace.single (bareSpan p)).recordSize + ((bareSpan q).recordSize + 1)
    + (Trace.ofSpans [bareSpan p, bareSpan q]).recordSize

theorem roomy_valid : (roomy p q).Valid := by
  refine ⟨(by decide : 0 < (10000 : Int64).toInt), (by decide : 0 ≤ (2000 : Int64).toInt), ?_⟩
  simp only [roomy]
  omega

theorem closingTime_roomy : (roomy p q).closingTime ((roomy p q).windowOf 0) = 12000 :=
  (by decide : Timestamp.clamp ((Timestamp.clamp ((0 : Int64).toInt
    + ((10000 : Int64).toInt - (0 : Int64).toInt % (10000 : Int64).toInt))).toInt
    + (2000 : Int64).toInt) = 12000)

/-- The slot of the first span. -/
def loneSlot : Slot where
  start := ((roomy p q).windowOf 0).start
  key := windowKey p.1 p.2
  trace := .single (bareSpan p)
  size := (Trace.single (bareSpan p)).recordSize
  overflowed := false

/-- The slot of both spans, if they have one key. -/
def sharedSlot : Slot :=
  { loneSlot p q with
    trace := .ofSpans [bareSpan p, bareSpan q]
    size := (Trace.single (bareSpan p)).recordSize + ((bareSpan q).recordSize + 1) }

/-- An assembler with one slot in its first window. -/
def holding (s : Slot) : Assembler := ⟨roomy p q, some 0, [s]⟩

theorem settled_holding {s : Slot} (h : s.start = ((roomy p q).windowOf 0).start) :
    (holding p q s).Settled := by
  intro t ht
  obtain rfl := List.mem_singleton.mp ht
  show (0 : Timestamp) < (roomy p q).closingTime ((roomy p q).windowOf t.start)
  rw [h, WindowConfig.windowOf_start (roomy_valid p q), closingTime_roomy]
  decide

theorem accept_first :
    accept { config := roomy p q } (bareSpan p) = holding p q (loneSlot p q) := by
  have hfits : (Trace.single (bareSpan p)).recordSize ≤ (roomy p q).maxRecordSize := by
    simp only [roomy]
    omega
  show Assembler.mk (roomy p q) (some 0)
    [(Slot.first (roomy p q).maxRecordSize ((roomy p q).windowOf 0) (bareSpan p)).1] = _
  rw [Slot.first_of_le hfits]
  rfl

theorem accept_second (h : windowKey p.1 p.2 = windowKey q.1 q.2) :
    accept (holding p q (loneSlot p q)) (bareSpan q) = holding p q (sharedSlot p q) := by
  have hfits : (loneSlot p q).size + ((bareSpan q).recordSize + 1) ≤ (roomy p q).maxRecordSize := by
    simp only [roomy, loneSlot]
    omega
  show Assembler.mk (roomy p q) (some (max 0 0)) (Slot.place (roomy p q).maxRecordSize
    ((roomy p q).windowOf 0) (bareSpan q) [loneSlot p q]).1 = _
  rw [Slot.place_cons, if_pos ⟨rfl, h⟩, Slot.extend_of_le rfl hfits]
  rfl

/-- Two bare spans of one key, pushed one after the other, are emitted as one trace. -/
theorem mem_run_of_key_eq (h : windowKey p.1 p.2 = windowKey q.1 q.2) :
    Trace.ofSpans [bareSpan p, bareSpan q] ∈ (run { config := roomy p q }
      [.push (bareSpan p), .push (bareSpan q), .advance Int64.maxValue]).2.traces := by
  have hvalid := roomy_valid p q
  have hnew : Sound { config := roomy p q } := sound_new hvalid
  have hlone : (holding p q (loneSlot p q)).Sound := accept_first p q ▸ hnew.accept (bareSpan p)
  have hshared : (holding p q (sharedSlot p q)).Sound :=
    accept_second p q h ▸ hlone.accept (bareSpan q)
  have hfirst : (push { config := roomy p q } (bareSpan p)).1 = holding p q (loneSlot p q) := by
    rw [push_of_settled_accept hnew, accept_first]
    · exact WindowConfig.minValue_lt_closingTime hvalid _
    · exact accept_first p q ▸ settled_holding p q rfl
  have hsecond : (push (holding p q (loneSlot p q)) (bareSpan q)).1
      = holding p q (sharedSlot p q) := by
    rw [push_of_settled_accept hlone, accept_second p q h]
    · exact (closingTime_roomy p q).symm ▸ (by decide : (0 : Timestamp) < 12000)
    · exact accept_second p q h ▸ settled_holding p q rfl
  simp only [Assembler.run, perform, Emission.traces_append, List.mem_append]
  right; right; left
  rw [hfirst, hsecond]
  refine (mem_close_traces (hshared.prepare (.advance Int64.maxValue))).mpr ?_
  refine ⟨sharedSlot p q, List.mem_singleton_self _, ?_, rfl, ?_, rfl⟩
  · exact Int64.le_maxValue _
  · show (Trace.ofSpans [bareSpan p, bareSpan q]).recordSize ≤ (roomy p q).maxRecordSize
    simp only [roomy]
    omega

end

/-- Emitted traces are homogeneous for sure as long as no two of the pairs that come in overlap, and
only then. -/
theorem homogeneous_iff_no_overlap (P : String × String → Prop) :
    (∀ c a ops, new? c = .ok a → (∀ span, .push span ∈ ops → P span.ids) →
        ∀ t ∈ (a.run ops).2.traces, t.Homogeneous)
      ↔ ∀ p q, P p → P q → ¬Overlap p q := by
  constructor
  · intro hall p q hp hq hoverlap
    have hmem := mem_run_of_key_eq p q hoverlap.key_eq
    have hnew := new?_eq_ok_iff.mpr ⟨roomy_valid p q, rfl⟩
    have hpushed : ∀ span, .push span ∈ [Operation.push (bareSpan p), .push (bareSpan q),
        .advance Int64.maxValue] → P span.ids := by
      intro span hspan
      simp only [List.mem_cons, Operation.push.injEq, reduceCtorEq, List.not_mem_nil,
        or_false] at hspan
      rcases hspan with rfl | rfl
      · exact hp
      · exact hq
    have := hall _ _ _ hnew hpushed _ hmem (bareSpan q) (by simp)
    exact hoverlap.token_ne this.1.symm
  · intro hno c a ops hnew hops t ht
    obtain ⟨hc, rfl⟩ := new?_eq_ok_iff.mp hnew
    have hassembled := (mem_run_traces (sound_new hc) (settled_new c) ht).1
    have hids := forall_spans_of_mem_run (sound_new hc) (settled_new c) (P := fun x => P x.ids)
      (by simp [HoldsOnly]) hops ht
    refine hassembled.homogeneous fun x hx y hy => ?_
    have hkey : windowKey x.ids.1 x.ids.2 = windowKey y.ids.1 y.ids.2 :=
      (hassembled.mem x hx).1.trans (hassembled.mem y hy).1.symm
    rcases (windowKey_eq_iff _ _).mp hkey with h | h | h
    · exact h
    · exact absurd h (hno _ _ (hids x hx) (hids y hy))
    · exact absurd h (hno _ _ (hids y hy) (hids x hx))

/-- Spans of the landscapes `a` and `a:` end up in one trace. -/
theorem merged_landscapes :
    ∃ t ∈ (run { config := {} } [
        .push { landscapeToken := "a:", traceId := "b", spanId := "1", startTime := 100 },
        .push { landscapeToken := "a", traceId := ":b", spanId := "2", startTime := 200 },
        .advance 12000]).2.traces, ¬t.Homogeneous := by
  decide +kernel

end Assembler

end CallTrace
