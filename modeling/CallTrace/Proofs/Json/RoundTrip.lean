import CallTrace.Json.Field
import CallTrace.Json.Writer
import CallTrace.Proofs.Json.Grammar

/-! # Reading what was written

A value is read back from its text (`Value.read?_render`), provided its numbers are literals
(`Value.Legal`).

What is written follows the grammar (`Value.Legal.spells`), by induction on the value; the rest is
the reader's. -/

namespace CallTrace.Json

/-! ### String literals -/

theorem isHexDigit_digitChar (n : Nat) : IsHexDigit (Nat.digitChar (n % 16)) (n % 16) :=
  ⟨Nat.mod_lt n (by omega), .inl rfl⟩

theorem spellsUnit_escapeChar (c : Char) : SpellsUnit (escapeChar c) c.toNat := by
  unfold escapeChar
  iterate 7
    split
    · next h =>
      subst h
      exact .letter (by decide)
  split
  · next h =>
    have hunit : c.toNat / 4096 % 16 * 4096 + c.toNat / 256 % 16 * 256 + c.toNat / 16 % 16 * 16
        + c.toNat % 16 = c.toNat := by omega
    have hspells := SpellsUnit.hex (isHexDigit_digitChar (c.toNat / 4096))
      (isHexDigit_digitChar (c.toNat / 256)) (isHexDigit_digitChar (c.toNat / 16))
      (isHexDigit_digitChar c.toNat)
    rwa [hunit] at hspells
  · next hquote hbackslash _ _ _ _ _ h => exact .plain (Nat.not_lt.mp h) hquote hbackslash

theorem spellsUnits_flatMap_escapeChar (text : List Char) :
    SpellsUnits (text.flatMap escapeChar) (text.map Char.toNat) := by
  induction text with
  | nil => exact .nil
  | cons c text ih => exact .cons (spellsUnit_escapeChar c) ih

theorem textUnits_toNat (text : List Char) : TextUnits (text.map Char.toNat) text := by
  induction text with
  | nil => exact .nil
  | cons c text ih => exact .cons (.scalar c) ih

/-- A high surrogate alone is no text. -/
theorem not_textUnits_surrogate (text : List Char) : ¬ TextUnits [0xd800] text := by
  intro h
  generalize hus : [0xd800] = us at h
  cases h with
  | nil => simp at hus
  | @cons _ _ c _ hu _ =>
    cases hu with
    | scalar =>
      obtain ⟨hc, -⟩ := List.cons.inj hus
      have hhigh := (isSurrogate_toNat c).1
      rw [← hc] at hhigh
      exact absurd hhigh (by decide)
    | surrogates => simp at hus

theorem Text.spells_render (t : Text) : SpellsText (Text.render t) t := by
  cases t with
  | none =>
    have hhex : ∀ d < 16, IsHexDigit (Nat.digitChar d) d := fun d hd => ⟨hd, .inl rfl⟩
    have hunit : SpellsUnit ['\\', 'u', 'd', '8', '0', '0'] 0xd800 :=
      .hex (hhex 13 (by omega)) (hhex 8 (by omega)) (hhex 0 (by omega)) (hhex 0 (by omega))
    exact .lone (.cons hunit .nil) not_textUnits_surrogate
  | some s => exact .text (spellsUnits_flatMap_escapeChar s.toList) (textUnits_toNat s.toList)

/-! ### Number literals -/

theorem Number.spells_render {n : Number} (hn : n.IsLiteral) : SpellsNumber n.render n := by
  have hletter : IsExponentLetter 'e' := .inl rfl
  obtain ⟨negative, whole, fraction, _ | ⟨small, digits⟩⟩ := n
  · have hspells := SpellsNumber.mk hn .absent
    rwa [← List.append_assoc, ← List.append_assoc] at hspells
  · cases small with
    | true =>
      have hspells := SpellsNumber.mk hn (.minus hletter digits)
      rwa [← List.append_assoc, ← List.append_assoc] at hspells
    | false =>
      have hspells := SpellsNumber.mk hn (.unsigned hletter digits)
      rwa [← List.append_assoc, ← List.append_assoc] at hspells

/-! ### Values -/

/-- The values that have a text. -/
inductive Value.Legal : Value → Prop
  | null : Legal .null
  | bool (b : Bool) : Legal (.bool b)
  | number {n : Number} (h : n.IsLiteral) : Legal (.number n)
  | string (t : Text) : Legal (.string t)
  | array {items : List Value} (h : ∀ v ∈ items, Legal v) : Legal (.array items)
  | object {members : List (Text × Value)} (h : ∀ m ∈ members, Legal m.2) : Legal (.object members)

theorem spells_items {items : List Value} (hne : items ≠ [])
    (hitems : ∀ v ∈ items, Spells v.render (.value v)) : Spells (renderItems items) (.items items) := by
  induction items with
  | nil => exact absurd rfl hne
  | cons v items ih =>
    have hv := hitems v List.mem_cons_self
    cases items with
    | nil => exact .item hv
    | cons w items => exact .moreItems (.item hv) (ih (by simp) fun u hu => hitems u (.tail _ hu))

theorem spells_members {members : List (Text × Value)} (hne : members ≠ [])
    (hmembers : ∀ m ∈ members, Spells m.2.render (.value m.2)) :
    Spells (renderMembers members) (.members members) := by
  have hmember : ∀ k v, Spells v.render (.value v) →
      Spells (Text.render k ++ ':' :: v.render) (.members [(k, v)]) := by
    intro k v hv
    exact .member (Text.spells_render k) isBlank_nil hv
  induction members with
  | nil => exact absurd rfl hne
  | cons m members ih =>
    obtain ⟨k, v⟩ := m
    have hfirst := hmember k v (hmembers _ List.mem_cons_self)
    cases members with
    | nil => exact hfirst
    | cons m members =>
      have hmore := Spells.moreMembers hfirst (ih (by simp) fun u hu => hmembers u (.tail _ hu))
      rwa [List.append_assoc] at hmore

/-- Every value follows the grammar where it is written. -/
theorem Value.Legal.spells {v : Value} (h : v.Legal) : Spells v.render (.value v) := by
  induction h with
  | null => exact .null
  | bool b =>
    cases b with
    | true => exact .true
    | false => exact .false
  | number hn => exact .number (Number.spells_render hn)
  | string t => exact .string (Text.spells_render t)
  | @array items _ ih =>
    rw [Value.render]
    cases items with
    | nil => exact .emptyArray isBlank_nil
    | cons v items => exact .array (spells_items (by simp) ih)
  | @object members _ ih =>
    rw [Value.render]
    cases members with
    | nil => exact .emptyObject isBlank_nil
    | cons m members => exact .object (spells_members (by simp) ih)

/-- Whether the values in a phrase have a text. -/
def Phrase.Legal : Phrase → Prop
  | .value v => v.Legal
  | .items vs => ∀ v ∈ vs, v.Legal
  | .members ms => ∀ m ∈ ms, m.2.Legal

/-- What a text says has a text. -/
theorem Spells.legal {text : List Char} {p : Phrase} (h : Spells text p) : p.Legal := by
  induction h with
  | null => exact Value.Legal.null
  | true => exact Value.Legal.bool _
  | false => exact Value.Legal.bool _
  | number h =>
    obtain ⟨hn, -⟩ := h
    exact Value.Legal.number hn
  | string => exact Value.Legal.string _
  | emptyArray => exact Value.Legal.array nofun
  | array _ ih => exact Value.Legal.array ih
  | item _ ih =>
    intro v hv
    obtain rfl := List.mem_singleton.mp hv
    exact ih
  | moreItems _ _ ih ih' => exact fun v hv => (List.mem_append.mp hv).elim (ih v) (ih' v)
  | emptyObject => exact Value.Legal.object nofun
  | object _ ih => exact Value.Legal.object ih
  | member _ _ _ ih =>
    intro m hm
    obtain rfl := List.mem_singleton.mp hm
    exact ih
  | moreMembers _ _ ih ih' => exact fun m hm => (List.mem_append.mp hm).elim (ih m) (ih' m)
  | blankBefore _ _ ih => exact ih
  | blankAfter _ _ ih => exact ih

/-- A value is read back from its text. -/
theorem Value.read?_render {v : Value} (h : v.Legal) : read? (String.ofList v.render) = some v := by
  refine Spells.read? ?_
  rw [String.toList_ofList]
  exact h.spells

/-! ### Integers -/

theorem digitsValue_toDigits (n : Nat) : digitsValue (Nat.toDigits 10 n) = n :=
  Nat.ofDigitChars_ten_toDigits

theorem head?_toDigits {n : Nat} (hn : 0 < n) : (Nat.toDigits 10 n).head? ≠ some '0' := by
  induction n using Nat.strongRecOn with
  | ind n ih =>
    by_cases hlt : n < 10
    · rw [Nat.toDigits_of_lt_base hlt]
      have hall : ∀ d < 10, 0 < d → [Nat.digitChar d].head? ≠ some '0' := by decide
      exact hall n hlt hn
    · have hprefix := ih (n / 10) (by omega) (by omega)
      rw [Nat.toDigits_of_base_le (by omega) (by omega)]
      cases hdigits : Nat.toDigits 10 (n / 10) with
      | nil => exact absurd hdigits Nat.toDigits_ne_nil
      | cons c digits =>
        rw [hdigits] at hprefix
        exact hprefix

theorem Number.isLiteral_ofInt (i : Int) : (Number.ofInt i).IsLiteral where
  whole := by
    show isWhole (Nat.toDigits 10 i.natAbs)
    cases hdigits : Nat.toDigits 10 i.natAbs with
    | nil => exact absurd hdigits Nat.toDigits_ne_nil
    | cons c digits =>
      cases digits with
      | nil => rfl
      | cons d digits =>
        by_cases hi : i.natAbs = 0
        · simp [hi, Nat.toDigits_zero] at hdigits
        · have hhead := head?_toDigits (Nat.pos_of_ne_zero hi)
          rw [hdigits] at hhead
          simpa [isWhole] using hhead
  whole_digits c hc := by
    have := Nat.isDigit_of_mem_toDigits (by omega) (by omega) hc
    simpa [isDigit, Char.isDigit, Char.le_def] using this
  fraction_digits := by simp [ofInt]
  exponent := by simp [ofInt]

theorem Number.toInt?_ofInt (i : Int) : (Number.ofInt i).toInt? = some i := by
  have hvalue : digitsValue (Number.ofInt i).whole = i.natAbs := digitsValue_toDigits _
  have hplain : ((ofInt i).fraction.isEmpty && (ofInt i).exponent.isNone) = true := rfl
  rw [toInt?, if_pos hplain, hvalue]
  by_cases hi : i < 0
  · have hnegative : (Number.ofInt i).negative = true := decide_eq_true hi
    rw [if_pos hnegative, if_neg (by omega)]
    exact congrArg some (by omega)
  · have hnegative : (Number.ofInt i).negative ≠ true := by simpa [ofInt] using hi
    rw [if_neg hnegative]
    exact congrArg some (by omega)

theorem digitChar_digitValue {c : Char} (hc : isDigit c) : Nat.digitChar (digitValue c) = c := by
  simp only [isDigit, Bool.and_eq_true, decide_eq_true_eq, Char.le_def] at hc
  have hlow : 48 ≤ c.toNat := hc.1
  have hhigh : c.toNat ≤ 57 := hc.2
  refine Char.toNat_inj.mp ?_
  show (Nat.digitChar (c.toNat - 48)).toNat = c.toNat
  rw [Nat.toNat_digitChar_of_lt_ten (by omega)]
  omega

theorem digitValue_lt {c : Char} (hc : isDigit c) : digitValue c < 10 := by
  simp only [isDigit, Bool.and_eq_true, decide_eq_true_eq, Char.le_def] at hc
  have hhigh : c.toNat ≤ 57 := hc.2
  show c.toNat - 48 < 10
  omega

/-- Further digits are written after those of a number that has some. -/
theorem toDigits_foldl {digits : List Char} (h : ∀ c ∈ digits, isDigit c) {n : Nat} (hn : 0 < n) :
    Nat.toDigits 10 (digits.foldl (fun n c => 10 * n + digitValue c) n) = Nat.toDigits 10 n ++ digits := by
  induction digits generalizing n with
  | nil => simp
  | cons c digits ih =>
    obtain ⟨hc, hdigits⟩ := List.forall_mem_cons.mp h
    have hlast := Nat.toDigits_append_toDigits (by omega) hn (digitValue_lt hc)
    rw [Nat.toDigits_of_lt_base (digitValue_lt hc), digitChar_digitValue hc] at hlast
    rw [List.foldl_cons, ih hdigits (by omega), ← hlast, List.append_assoc, List.singleton_append]

/-- Without leading zeros there is one way to write a number. -/
theorem toDigits_digitsValue {digits : List Char} (hwhole : isWhole digits)
    (h : ∀ c ∈ digits, isDigit c) : Nat.toDigits 10 (digitsValue digits) = digits := by
  cases digits with
  | nil => simp [isWhole] at hwhole
  | cons c digits =>
    obtain ⟨hc, hdigits⟩ := List.forall_mem_cons.mp h
    have hfirst : digitsValue (c :: digits)
        = digits.foldl (fun n c => 10 * n + digitValue c) (digitValue c) := by
      simp [digitsValue]
    rw [hfirst]
    cases digits with
    | nil => rw [List.foldl_nil, Nat.toDigits_of_lt_base (digitValue_lt hc), digitChar_digitValue hc]
    | cons d digits =>
      have hpos : 0 < digitValue c := by
        refine Nat.pos_of_ne_zero fun hzero => ?_
        have hchar := digitChar_digitValue hc
        rw [hzero] at hchar
        subst hchar
        exact absurd hwhole (by simp [isWhole])
      rw [toDigits_foldl hdigits hpos, Nat.toDigits_of_lt_base (digitValue_lt hc),
        digitChar_digitValue hc, List.singleton_append]

/-- An integer has one literal. -/
theorem Number.eq_ofInt {n : Number} (hn : n.IsLiteral) {i : Int} (h : n.toInt? = some i) :
    n = ofInt i := by
  obtain ⟨negative, whole, fraction, exponent⟩ := n
  have hdigits := toDigits_digitsValue hn.whole hn.whole_digits
  simp only [toInt?] at h hdigits
  split at h
  · next hplain =>
    simp only [Bool.and_eq_true, List.isEmpty_iff, Option.isNone_iff_eq_none] at hplain
    obtain ⟨rfl, rfl⟩ := hplain
    split at h
    · next hnegative =>
      split at h
      · simp at h
      · next hzero =>
        obtain rfl := Option.some.inj h
        simp [ofInt, hnegative, Nat.pos_of_ne_zero hzero, hdigits]
    · next hnegative =>
      obtain rfl := Option.some.inj h
      simp [ofInt, hnegative, hdigits]
  · simp at h

@[simp] theorem Value.int64?_ofInt (x : Int64) : (ofInt x.toInt).int64? = some x := by
  simp only [ofInt, int64?, Number.toInt?_ofInt, Option.bind_some]
  rw [if_pos, Int64.ofInt_toInt]
  exact ⟨Int64.le_iff_toInt_le.mp (Int64.minValue_le x), Int64.le_iff_toInt_le.mp (Int64.le_maxValue x)⟩

theorem Value.int64?_eq_some_iff {v : Value} (hv : v.Legal) {x : Int64} :
    v.int64? = some x ↔ v = ofInt x.toInt := by
  refine ⟨fun h => ?_, fun h => by rw [h, int64?_ofInt]⟩
  cases hv with
  | number hn =>
    obtain ⟨i, hi, hx⟩ := Option.bind_eq_some_iff.mp h
    split at hx
    · next hrange =>
      obtain rfl := Option.some.inj hx
      rw [Number.eq_ofInt hn hi, ofInt, Int64.toInt_ofInt_of_le hrange.1 (Int.lt_add_one_of_le hrange.2)]
    · simp at hx
  | _ => simp [int64?] at h

@[simp] theorem Value.int32?_ofInt (x : Int32) : (ofInt x.toInt).int32? = some x := by
  simp only [ofInt, int32?, Number.toInt?_ofInt, Option.bind_some]
  rw [if_pos, Int32.ofInt_toInt]
  exact ⟨Int32.le_iff_toInt_le.mp (Int32.minValue_le x), Int32.le_iff_toInt_le.mp (Int32.le_maxValue x)⟩

@[simp] theorem Value.text?_ofString (s : String) : (ofString s).text? = some s := rfl

theorem Value.text?_eq_some_iff {v : Value} {s : String} : v.text? = some s ↔ v = ofString s := by
  cases v <;> simp [text?, ofString]

theorem Value.legal_ofString (s : String) : (ofString s).Legal := .string _

theorem Value.legal_ofInt (i : Int) : (ofInt i).Legal := .number (Number.isLiteral_ofInt i)

theorem Value.legal_zip {names : List Text} {values : List Value} (h : ∀ v ∈ values, v.Legal) :
    (object (names.zip values)).Legal :=
  .object fun _ hm => h _ (List.of_mem_zip hm).2

end CallTrace.Json
