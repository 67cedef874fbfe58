import CallTrace.Proofs.Lists.Order
import CallTrace.Proofs.Window.Tiling

/-! # Slots in order

The slots of an assembler stand in the order of their windows and keys (`Slot.Ordered`), and
placing a span keeps them so (`Slot.ordered_place`).  Only the slot of the span's own window and
key changes or is made (`Slot.mem_place`), and no other slot has that window and key
(`Slot.place_eq`).  So the slots of other keys cannot tell that a span was
placed (`Slot.filter_place_of_neg`), and those of a set of keys that has the span's key in it
change as if there were no others (`Slot.filter_place_of_pos`). -/

namespace CallTrace.Slot
variable {limit : Nat} {window : Window} {span : Span} {slots : List Slot}

/-! ### Single slots -/

@[simp] theorem limited_start (s : Slot) : (s.limited limit window).1.start = s.start := by
  unfold limited
  split <;> rfl

@[simp] theorem limited_key (s : Slot) : (s.limited limit window).1.key = s.key := by
  unfold limited
  split <;> rfl

@[simp] theorem first_start : (first limit window span).1.start = window.start := by
  simp [first]

@[simp] theorem first_key : (first limit window span).1.key = span.windowKey := by
  simp [first]

@[simp] theorem extend_start (s : Slot) : (s.extend limit window span).1.start = s.start := by
  unfold extend
  split <;> simp

@[simp] theorem extend_key (s : Slot) : (s.extend limit window span).1.key = s.key := by
  unfold extend
  split <;> simp

theorem limited_of_le {s : Slot} (h : s.size ≤ limit) : s.limited limit window = (s, []) :=
  if_neg (Nat.not_lt.mpr h)

theorem first_of_le (h : (Trace.single span).recordSize ≤ limit) :
    first limit window span
      = ({ start := window.start
           key := span.windowKey
           trace := .single span
           size := (Trace.single span).recordSize
           overflowed := false }, []) := by
  have hadd : Trace.add {} span = .single span := rfl
  simp only [first, limited, hadd, if_neg (Nat.not_lt.mpr h)]

theorem extend_of_le {s : Slot} (hopen : s.overflowed = false)
    (h : s.size + (span.recordSize + 1) ≤ limit) :
    s.extend limit window span
      = ({ s with trace := s.trace.add span, size := s.size + (span.recordSize + 1) }, []) := by
  rw [extend, hopen, if_neg Bool.false_ne_true]
  exact limited_of_le h

/-- A slot stands where its window and its key say. -/
def address (s : Slot) : Timestamp × String := (s.start, s.key)

@[simp] theorem address_first :
    (first limit window span).1.address = (window.start, span.windowKey) := by
  rw [address, first_start, first_key]

@[simp] theorem address_extend (s : Slot) : (s.extend limit window span).1.address = s.address := by
  rw [address, address, extend_start, extend_key]

/-! ### Order -/

/-- The order of slots: by their windows, then by their keys. -/
def Before (s t : Slot) : Prop := s.start < t.start ∨ s.start = t.start ∧ s.key < t.key

def Ordered (slots : List Slot) : Prop := slots.Pairwise Before

theorem precedes_iff {start : Timestamp} {key : String} {s : Slot} :
    precedes start key s = true ↔ start < s.start ∨ start = s.start ∧ key < s.key := by
  simp [precedes]

theorem Before.trans {s t u : Slot} (h₁ : s.Before t) (h₂ : t.Before u) : s.Before u := by
  unfold Before at *
  grind

/-- Slots differ in window or key, or one stands before the other. -/
theorem before_of_not_precedes {start : Timestamp} {key : String} {s t : Slot}
    (ht : t.start = start ∧ t.key = key) (hne : ¬(s.start = start ∧ s.key = key))
    (h : ¬precedes start key s = true) : s.Before t := by
  rw [precedes_iff] at h
  unfold Before
  grind

/-! ### Placing a span -/

-- No `rfl` here: it would work out the size of a record that is only to be named.
theorem place_nil : place limit window span []
    = ([(first limit window span).1], (first limit window span).2) := by
  simp only [place]

theorem place_cons (s : Slot) :
    place limit window span (s :: slots)
      = if s.start = window.start ∧ s.key = span.windowKey then
          ((s.extend limit window span).1 :: slots, (s.extend limit window span).2)
        else if precedes window.start span.windowKey s then
          ((first limit window span).1 :: s :: slots, (first limit window span).2)
        else (s :: (place limit window span slots).1, (place limit window span slots).2) := by
  simp only [place]

/-- What a slot is after a span was placed. -/
theorem mem_place {s : Slot} (h : s ∈ (place limit window span slots).1) :
    s ∈ slots ∨ s = (first limit window span).1 ∨
      ∃ t ∈ slots, t.start = window.start ∧ t.key = span.windowKey ∧
        s = (t.extend limit window span).1 := by
  induction slots with
  | nil =>
    rw [place_nil] at h
    exact .inr (.inl (List.mem_singleton.mp h))
  | cons t slots ih =>
    rw [place_cons] at h
    split at h
    · next ht =>
      rcases List.mem_cons.mp h with rfl | h
      · exact .inr (.inr ⟨t, List.mem_cons_self, ht.1, ht.2, rfl⟩)
      · exact .inl (List.mem_cons_of_mem _ h)
    · split at h
      · rcases List.mem_cons.mp h with rfl | h
        · exact .inr (.inl rfl)
        · exact .inl h
      · rcases List.mem_cons.mp h with rfl | h
        · exact .inl List.mem_cons_self
        · rcases ih h with h | h | ⟨u, hu, h⟩
          · exact .inl (List.mem_cons_of_mem _ h)
          · exact .inr (.inl h)
          · exact .inr (.inr ⟨u, List.mem_cons_of_mem _ hu, h⟩)

theorem ordered_place (h : Ordered slots) : Ordered (place limit window span slots).1 := by
  induction slots with
  | nil =>
    rw [place_nil]
    exact List.pairwise_singleton _ _
  | cons s slots ih =>
    obtain ⟨hs, hslots⟩ := List.pairwise_cons.mp h
    rw [place_cons]
    split
    · refine List.pairwise_cons.mpr ⟨fun t ht => ?_, hslots⟩
      simpa [Before] using hs t ht
    · next hne =>
      split
      · next hp =>
        have new_before : (first limit window span).1.Before s := by
          simpa [Before] using precedes_iff.mp hp
        refine List.pairwise_cons.mpr ⟨fun t ht => ?_, h⟩
        rcases List.mem_cons.mp ht with rfl | ht
        · exact new_before
        · exact new_before.trans (hs t ht)
      · next hp =>
        refine List.pairwise_cons.mpr ⟨fun t ht => ?_, ih hslots⟩
        rcases mem_place ht with ht | rfl | ⟨u, hu, hstart, hkey, rfl⟩
        · exact hs t ht
        · exact before_of_not_precedes ⟨first_start, first_key⟩ hne hp
        · simpa [Before] using hs u hu

theorem place_of_forall_precedes (h : ∀ s ∈ slots, precedes window.start span.windowKey s = true) :
    place limit window span slots
      = ((first limit window span).1 :: slots, (first limit window span).2) := by
  cases slots with
  | nil => exact place_nil
  | cons s slots =>
    have hs := h s List.mem_cons_self
    have hne : ¬(s.start = window.start ∧ s.key = span.windowKey) := by
      rw [precedes_iff] at hs
      grind
    rw [place_cons, if_neg hne, if_pos hs]

/-- Placing a span extends the one slot with its address, or puts a new one between two others. -/
theorem place_eq (limit : Nat) (window : Window) (span : Span) (h : Ordered slots) :
    ∃ before after, (∀ t ∈ before ++ after, t.address ≠ (window.start, span.windowKey)) ∧
      ((slots = before ++ after ∧ place limit window span slots
          = (before ++ (first limit window span).1 :: after, (first limit window span).2)) ∨
        ∃ s, s.address = (window.start, span.windowKey) ∧ slots = before ++ s :: after ∧
          place limit window span slots = (before ++ (s.extend limit window span).1 :: after,
            (s.extend limit window span).2)) := by
  induction slots with
  | nil => exact ⟨[], [], by simp, .inl ⟨rfl, place_nil⟩⟩
  | cons s slots ih =>
    obtain ⟨hs, hslots⟩ := List.pairwise_cons.mp h
    rw [place_cons]
    by_cases hsame : s.start = window.start ∧ s.key = span.windowKey
    · refine ⟨[], slots, fun t ht => ?_, .inr ⟨s, Prod.ext hsame.1 hsame.2, rfl, if_pos hsame⟩⟩
      have := hs t ht
      unfold Before at this
      unfold address
      grind
    · rw [if_neg hsame]
      by_cases hp : precedes window.start span.windowKey s = true
      · refine ⟨[], s :: slots, fun t ht => ?_, .inl ⟨rfl, if_pos hp⟩⟩
        rw [precedes_iff] at hp
        unfold address
        rcases List.mem_cons.mp ht with rfl | ht
        · grind
        · have := hs t ht
          unfold Before at this
          grind
      · rw [if_neg hp]
        obtain ⟨before, after, hothers, hplace⟩ := ih hslots
        refine ⟨s :: before, after, ?_, ?_⟩
        · rintro t (_ | ⟨_, ht⟩)
          · exact fun e => hsame ⟨congrArg Prod.fst e, congrArg Prod.snd e⟩
          · exact hothers t ht
        · rcases hplace with ⟨rfl, e⟩ | ⟨t, ht, rfl, e⟩
          · exact .inl ⟨rfl, by rw [e]; rfl⟩
          · exact .inr ⟨t, ht, rfl, by rw [e]; rfl⟩

/-- A slot that stands elsewhere is left as it is, and the one that is made or extended is alone at
its address. -/
theorem mem_place_of_ordered (h : Ordered slots) {s : Slot}
    (hs : s ∈ (place limit window span slots).1) :
    (s ∈ slots ∧ s.address ≠ (window.start, span.windowKey)) ∨
      (s = (first limit window span).1 ∧
        ∀ t ∈ slots, t.address ≠ (window.start, span.windowKey)) ∨
      ∃ t ∈ slots, t.address = (window.start, span.windowKey) ∧
        s = (t.extend limit window span).1 := by
  obtain ⟨before, after, hothers, ⟨rfl, hplace⟩ | ⟨t, haddress, rfl, hplace⟩⟩ :=
    place_eq limit window span h
  · rw [hplace, List.mem_append, List.mem_cons, or_left_comm, ← List.mem_append] at hs
    rcases hs with rfl | hs
    · exact .inr (.inl ⟨rfl, hothers⟩)
    · exact .inl ⟨hs, hothers s hs⟩
  · rw [hplace, List.mem_append, List.mem_cons, or_left_comm, ← List.mem_append] at hs
    rcases hs with rfl | hs
    · exact .inr (.inr ⟨t, by simp, haddress, rfl⟩)
    · exact .inl ⟨by grind, hothers s hs⟩

/-- After a span was placed there is a slot at its address, and at no other where there was none. -/
theorem mem_map_address_place (h : Ordered slots) {p : Timestamp × String} :
    p ∈ (place limit window span slots).1.map address
      ↔ p = (window.start, span.windowKey) ∨ p ∈ slots.map address := by
  obtain ⟨before, after, -, ⟨rfl, hplace⟩ | ⟨s, haddress, rfl, hplace⟩⟩ :=
    place_eq limit window span h
  · rw [hplace, List.map_append, List.map_cons, address_first]
    simp [or_left_comm]
  · rw [hplace, List.map_append, List.map_cons, address_extend, List.map_append, List.map_cons,
      haddress]
    simp [or_left_comm]

/-! ### Some of the keys -/

/-- The slots of the other keys cannot tell that a span was placed. -/
theorem filter_place_of_neg {P : String → Bool} (hP : P span.windowKey = false) :
    (place limit window span slots).1.filter (fun s => P s.key)
      = slots.filter fun s => P s.key := by
  induction slots with
  | nil => simp [place_nil, hP]
  | cons s slots ih =>
    rw [place_cons]
    split
    · next h => simp [h.2, hP]
    · split
      · simp [hP]
      · simp [List.filter_cons, ih]

/-- A span is placed among the slots of some keys, its own being one of them, as among all. -/
theorem filter_place_of_pos {P : String → Bool} (h : Ordered slots)
    (hP : P span.windowKey = true) :
    place limit window span (slots.filter fun s => P s.key)
      = ((place limit window span slots).1.filter (fun s => P s.key),
          (place limit window span slots).2) := by
  induction slots with
  | nil => simp [place_nil, hP]
  | cons s slots ih =>
    obtain ⟨hs, hslots⟩ := List.pairwise_cons.mp h
    rw [place_cons]
    by_cases hsame : s.start = window.start ∧ s.key = span.windowKey
    · have hkeep : P s.key = true := by rw [hsame.2, hP]
      rw [if_pos hsame, List.filter_cons, if_pos hkeep, place_cons, if_pos hsame]
      simp [hkeep]
    · rw [if_neg hsame]
      by_cases hp : precedes window.start span.windowKey s = true
      · have front : ∀ t ∈ (s :: slots).filter (fun s => P s.key),
            precedes window.start span.windowKey t = true := by
          intro t ht
          rw [precedes_iff] at hp ⊢
          rcases List.mem_cons.mp (List.mem_filter.mp ht).1 with rfl | ht
          · exact hp
          · have := hs t ht
            unfold Before at this
            grind
        rw [if_pos hp, place_of_forall_precedes front, List.filter_cons_of_pos (a := Prod.fst _)]
        simpa using hP
      · rw [if_neg hp]
        by_cases hkeep : P s.key = true
        · rw [List.filter_cons, if_pos hkeep, List.filter_cons, if_pos hkeep, place_cons,
            if_neg hsame, if_neg hp, ih hslots]
        · rw [List.filter_cons, if_neg hkeep, List.filter_cons, if_neg hkeep, ih hslots]

end CallTrace.Slot
