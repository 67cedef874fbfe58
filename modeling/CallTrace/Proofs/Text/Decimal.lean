import CallTrace.Text.Decimal

/-! # What spells a number in a setting

A natural number is spelled by digits, perhaps after a plus sign, and an integer also by digits after
a minus sign (`Text.SpellsNatural`, `Text.SpellsInteger`).  Reading finds the number that is spelled,
if it is in range, and nothing else is read (`Text.natural?_eq_some_iff`,
`Text.integer?_eq_some_iff`). -/

namespace CallTrace.Text

/-- Digits and the number that they are in the decimal system. -/
structure IsDigits (text : List Char) (n : Nat) : Prop where
  ne_nil : text ≠ []
  digit : ∀ c ∈ text, Json.isDigit c
  value : Json.digitsValue text = n

inductive SpellsNatural (s : String) (n : Nat) : Prop where
  | plain (h : IsDigits s.toList n)
  | plus {digits : List Char} (hs : s.toList = '+' :: digits) (h : IsDigits digits n)

inductive SpellsInteger (s : String) (i : Int) : Prop where
  | natural {n : Nat} (hi : i = n) (h : SpellsNatural s n)
  | minus {n : Nat} {digits : List Char} (hi : i = -n) (hs : s.toList = '-' :: digits)
      (h : IsDigits digits n)

variable {s : String}

theorem digits?_eq_some_iff {text : List Char} {n : Nat} :
    digits? text = some n ↔ IsDigits text n := by
  unfold digits?
  split
  · next h =>
    simp only [Bool.and_eq_true, Bool.not_eq_true', List.isEmpty_eq_false_iff, List.all_eq_true] at h
    exact ⟨fun hn => ⟨h.1, h.2, Option.some.inj hn⟩, fun hn => congrArg some hn.value⟩
  · next h =>
    refine ⟨fun hn => (nomatch hn), fun hn => absurd ?_ h⟩
    simpa using ⟨hn.ne_nil, hn.digit⟩

/-- A sign is no digit. -/
theorem IsDigits.ne_cons {text : List Char} {n : Nat} (h : IsDigits text n) {c : Char}
    (hc : Json.isDigit c = false) (rest : List Char) : text ≠ c :: rest := by
  rintro rfl
  simpa [hc] using h.digit c List.mem_cons_self

theorem natural?_eq_some_iff {bound n : Nat} :
    natural? bound s = some n ↔ SpellsNatural s n ∧ n < bound := by
  unfold natural?
  rw [Option.filter_eq_some_iff, decide_eq_true_eq]
  refine and_congr_left fun _ => ?_
  split
  · next digits hs =>
    rw [digits?_eq_some_iff]
    refine ⟨.plus hs, fun h => ?_⟩
    cases h with
    | plain h => exact absurd hs (h.ne_cons rfl _)
    | plus hs' h => rwa [(List.cons.inj (hs.symm.trans hs')).2]
  · next hs =>
    rw [digits?_eq_some_iff]
    refine ⟨.plain, fun h => ?_⟩
    cases h with
    | plain h => exact h
    | plus hs' h => exact absurd hs' (hs _)

/-- The integer that a text spells, in whatever range. -/
def signed? (s : String) : Option Int :=
  match s.toList with
  | '+' :: rest => (digits? rest).map Int.ofNat
  | '-' :: rest => (digits? rest).map fun n => -Int.ofNat n
  | text => (digits? text).map Int.ofNat

theorem signed?_eq_some_iff {i : Int} : signed? s = some i ↔ SpellsInteger s i := by
  unfold signed?
  split
  · next digits hs =>
    simp only [Option.map_eq_some_iff, digits?_eq_some_iff]
    constructor
    · rintro ⟨n, h, rfl⟩
      exact .natural rfl (.plus hs h)
    · intro h
      cases h with
      | natural hi h =>
        cases h with
        | plain h => exact absurd hs (h.ne_cons rfl _)
        | plus hs' h =>
          obtain ⟨-, rfl⟩ := List.cons.inj (hs.symm.trans hs')
          exact ⟨_, h, hi.symm⟩
      | minus hi hs' h => simp [hs] at hs'
  · next digits hs =>
    simp only [Option.map_eq_some_iff, digits?_eq_some_iff]
    constructor
    · rintro ⟨n, h, rfl⟩
      exact .minus rfl hs h
    · intro h
      cases h with
      | natural hi h =>
        cases h with
        | plain h => exact absurd hs (h.ne_cons rfl _)
        | plus hs' h => simp [hs] at hs'
      | minus hi hs' h =>
        obtain ⟨-, rfl⟩ := List.cons.inj (hs.symm.trans hs')
        exact ⟨_, h, hi.symm⟩
  · next hplus hminus =>
    simp only [Option.map_eq_some_iff, digits?_eq_some_iff]
    constructor
    · rintro ⟨n, h, rfl⟩
      exact .natural rfl (.plain h)
    · intro h
      cases h with
      | natural hi h =>
        cases h with
        | plain h => exact ⟨_, h, hi.symm⟩
        | plus hs' h => exact absurd hs' (hplus _)
      | minus hi hs' h => exact absurd hs' (hminus _)

theorem integer?_eq_some_iff {i : Int64} : integer? s = some i ↔ SpellsInteger s i.toInt := by
  rw [← signed?_eq_some_iff]
  show ((signed? s).filter _).map Int64.ofInt = some i ↔ _
  simp only [Option.map_eq_some_iff, Option.filter_eq_some_iff, decide_eq_true_eq]
  constructor
  · rintro ⟨j, ⟨hj, hrange⟩, rfl⟩
    rw [hj, Int64.toInt_ofInt_of_le hrange.1 (Int.lt_add_one_of_le hrange.2)]
  · intro h
    exact ⟨i.toInt, ⟨h, i.minValue_le_toInt, i.toInt_le⟩, Int64.ofInt_toInt i⟩

theorem truth?_eq_some_iff {b : Bool} :
    truth? s = some b ↔ s = if b then "true" else "false" := by
  unfold truth?
  split
  · next h => cases b <;> simp [h]
  · next h =>
    split
    · next h' => cases b <;> simp [h']
    · next h' => cases b <;> simp [h, h']

end CallTrace.Text
