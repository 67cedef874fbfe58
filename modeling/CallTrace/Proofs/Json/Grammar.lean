import CallTrace.Json.Reader

/-! # The grammar of JSON texts

Which texts are JSON, and what each of them says, without a word about how it is read: `Spells` is the
grammar of values, `SpellsText` that of string literals and `SpellsNumber` that of number literals.
White space may stand around every value, every name and every comma.  A character of a string may
stand for itself or be escaped by a letter, by four hexadecimal digits of either case or, outside
the basic plane, by two surrogates; where surrogates do not pair up, the literal is one without a
text.

The reader takes every text of the grammar (`Spells.read?`).  The induction is on the derivation: a
phrase leads the machine from a state in which it may begin to the one in which it has been handed
over (`Phrase.Leads`, `Spells.run?`). -/

namespace CallTrace.Json

/-! ### String literals -/

/-- The letters that may follow a backslash, and the characters they stand for. -/
def escapeLetters : List (Char × Char) :=
  [('"', '"'), ('\\', '\\'), ('/', '/'), ('b', '\x08'), ('f', '\x0c'), ('n', '\n'), ('r', '\x0d'),
    ('t', '\t')]

/-- A hexadecimal digit of either case. -/
def IsHexDigit (c : Char) (d : Nat) : Prop :=
  d < 16 ∧ (c = Nat.digitChar d ∨ c = (Nat.digitChar d).toUpper)

/-- The ways to write a code unit in a string literal. -/
inductive SpellsUnit : List Char → Nat → Prop
  | plain {c : Char} (hcontrol : 32 ≤ c.toNat) (hquote : c ≠ '"') (hbackslash : c ≠ '\\') :
      SpellsUnit [c] c.toNat
  | letter {e c : Char} (h : (e, c) ∈ escapeLetters) : SpellsUnit ['\\', e] c.toNat
  | hex {c₃ c₂ c₁ c₀ : Char} {d₃ d₂ d₁ d₀ : Nat} (h₃ : IsHexDigit c₃ d₃) (h₂ : IsHexDigit c₂ d₂)
      (h₁ : IsHexDigit c₁ d₁) (h₀ : IsHexDigit c₀ d₀) :
      SpellsUnit ['\\', 'u', c₃, c₂, c₁, c₀] (d₃ * 4096 + d₂ * 256 + d₁ * 16 + d₀)

inductive SpellsUnits : List Char → List Nat → Prop
  | nil : SpellsUnits [] []
  | cons {text rest : List Char} {u : Nat} {us : List Nat} (hu : SpellsUnit text u)
      (hus : SpellsUnits rest us) : SpellsUnits (text ++ rest) (u :: us)

/-- The code units that stand for a character. -/
inductive CharUnits : List Nat → Char → Prop
  | scalar (c : Char) : CharUnits [c.toNat] c
  | surrogates {high low : Nat} {c : Char} (hhigh : high < 0x400) (hlow : low < 0x400)
      (hc : c.toNat = 0x10000 + high * 0x400 + low) : CharUnits [0xd800 + high, 0xdc00 + low] c

inductive TextUnits : List Nat → List Char → Prop
  | nil : TextUnits [] []
  | cons {u us : List Nat} {c : Char} {cs : List Char} (hu : CharUnits u c) (hus : TextUnits us cs) :
      TextUnits (u ++ us) (c :: cs)

/-- The string literals of a text; those of no text are the ones in which surrogates do not pair up. -/
inductive SpellsText : List Char → Text → Prop
  | text {body : List Char} {us : List Nat} {s : String} (hbody : SpellsUnits body us)
      (hus : TextUnits us s.toList) : SpellsText ('"' :: (body ++ ['"'])) (some s)
  | lone {body : List Char} {us : List Nat} (hbody : SpellsUnits body us)
      (hus : ∀ cs, ¬ TextUnits us cs) : SpellsText ('"' :: (body ++ ['"'])) none

/-! ### Number literals -/

/-- The form of a number literal. -/
structure Number.IsLiteral (n : Number) : Prop where
  whole : isWhole n.whole
  whole_digits : ∀ c ∈ n.whole, isDigit c
  fraction_digits : ∀ c ∈ n.fraction, isDigit c
  exponent : ∀ e ∈ n.exponent, e.2 ≠ [] ∧ ∀ c ∈ e.2, isDigit c

def IsExponentLetter (c : Char) : Prop := c = 'e' ∨ c = 'E'

/-- The ways to write an exponent. -/
inductive SpellsExponent : List Char → Option (Bool × List Char) → Prop
  | absent : SpellsExponent [] none
  | unsigned {e : Char} (he : IsExponentLetter e) (digits : List Char) :
      SpellsExponent (e :: digits) (some (false, digits))
  | plus {e : Char} (he : IsExponentLetter e) (digits : List Char) :
      SpellsExponent (e :: '+' :: digits) (some (false, digits))
  | minus {e : Char} (he : IsExponentLetter e) (digits : List Char) :
      SpellsExponent (e :: '-' :: digits) (some (true, digits))

/-- The digits of a fraction after their point. -/
def pointed (digits : List Char) : List Char := if digits.isEmpty then [] else '.' :: digits

inductive SpellsNumber : List Char → Number → Prop
  | mk {n : Number} {exponent : List Char} (hn : n.IsLiteral)
      (he : SpellsExponent exponent n.exponent) :
      SpellsNumber ((if n.negative then ['-'] else []) ++ (n.whole ++ (pointed n.fraction ++ exponent)))
        n

/-! ### Values -/

/-- What a part of a text may stand for. -/
inductive Phrase where
  | value (v : Value)
  /-- Items of an array, one or more. -/
  | items (items : List Value)
  /-- Members of an object, one or more. -/
  | members (members : List (Text × Value))

def IsBlank (text : List Char) : Prop := ∀ c ∈ text, isBlank c

theorem isBlank_nil : IsBlank [] := nofun

/-- Which texts stand for a phrase. -/
inductive Spells : List Char → Phrase → Prop
  | null : Spells ['n', 'u', 'l', 'l'] (.value .null)
  | true : Spells ['t', 'r', 'u', 'e'] (.value (.bool true))
  | false : Spells ['f', 'a', 'l', 's', 'e'] (.value (.bool false))
  | number {text : List Char} {n : Number} (h : SpellsNumber text n) : Spells text (.value (.number n))
  | string {text : List Char} {t : Text} (h : SpellsText text t) : Spells text (.value (.string t))
  | emptyArray {blank : List Char} (hblank : IsBlank blank) :
      Spells ('[' :: (blank ++ [']'])) (.value (.array []))
  | array {text : List Char} {items : List Value} (h : Spells text (.items items)) :
      Spells ('[' :: (text ++ [']'])) (.value (.array items))
  | item {text : List Char} {v : Value} (h : Spells text (.value v)) : Spells text (.items [v])
  | moreItems {text text' : List Char} {items items' : List Value} (h : Spells text (.items items))
      (h' : Spells text' (.items items')) : Spells (text ++ ',' :: text') (.items (items ++ items'))
  | emptyObject {blank : List Char} (hblank : IsBlank blank) :
      Spells ('\x7b' :: (blank ++ ['\x7d'])) (.value (.object []))
  | object {text : List Char} {members : List (Text × Value)} (h : Spells text (.members members)) :
      Spells ('\x7b' :: (text ++ ['\x7d'])) (.value (.object members))
  | member {name blank text : List Char} {k : Text} {v : Value} (hname : SpellsText name k)
      (hblank : IsBlank blank) (h : Spells text (.value v)) :
      Spells (name ++ (blank ++ ':' :: text)) (.members [(k, v)])
  | moreMembers {text text' : List Char} {members members' : List (Text × Value)}
      (h : Spells text (.members members)) (h' : Spells text' (.members members')) :
      Spells (text ++ ',' :: text') (.members (members ++ members'))
  | blankBefore {blank text : List Char} {p : Phrase} (hblank : IsBlank blank) (h : Spells text p) :
      Spells (blank ++ text) p
  | blankAfter {blank text : List Char} {p : Phrase} (hblank : IsBlank blank) (h : Spells text p) :
      Spells (text ++ blank) p

/-! ### Reading string literals -/

theorem hexValue?_of_isHexDigit {c : Char} {d : Nat} (h : IsHexDigit c d) : hexValue? c = some d := by
  have hlower : ∀ d < 16, hexValue? (Nat.digitChar d) = some d := by decide
  have hupper : ∀ d < 16, hexValue? (Nat.digitChar d).toUpper = some d := by decide
  obtain ⟨hd, rfl | rfl⟩ := h
  · exact hlower d hd
  · exact hupper d hd

theorem escaped?_of_mem {e c : Char} (h : (e, c) ∈ escapeLetters) : escaped? e = some c := by
  have hall : ∀ p ∈ escapeLetters, escaped? p.1 = some p.2 := by decide
  exact hall _ h

/-- However a code unit is written, it is read. -/
theorem SpellsUnit.units? {text : List Char} {u : Nat} (h : SpellsUnit text u) (done : List Nat)
    (rest : List Char) : units? done (text ++ rest) = Json.units? (u :: done) rest := by
  cases h with
  | plain hcontrol hquote hbackslash =>
    rw [List.cons_append, List.nil_append, units?.eq_def]
    simp [hquote, hbackslash, Nat.not_lt.mpr hcontrol]
  | @letter e c h =>
    have hu : ∀ p ∈ escapeLetters, p.1 ≠ 'u' := by decide
    have hletter : e ≠ 'u' := hu _ h
    rw [List.cons_append, List.cons_append, List.nil_append, units?.eq_def]
    simp [hletter, escaped?_of_mem h]
  | hex h₃ h₂ h₁ h₀ =>
    rw [units?.eq_def]
    simp [codeUnit?, hexValue?_of_isHexDigit h₃, hexValue?_of_isHexDigit h₂, hexValue?_of_isHexDigit h₁,
      hexValue?_of_isHexDigit h₀]

theorem SpellsUnits.units? {text : List Char} {us : List Nat} (h : SpellsUnits text us)
    (done : List Nat) (rest : List Char) :
    Json.units? done (text ++ '"' :: rest) = some (done.reverse ++ us, rest) := by
  induction h generalizing done with
  | nil =>
    rw [List.nil_append, units?.eq_def]
    simp
  | cons hu _ ih => simp [hu.units?, ih]

/-- A code unit is no more than the largest code point. -/
theorem SpellsUnit.lt {text : List Char} {u : Nat} (h : SpellsUnit text u) : u < 0x110000 := by
  have hchar : ∀ c : Char, c.toNat < 0x110000 := by
    intro c
    have hc : c.toNat < 0xd800 ∨ 0xdfff < c.toNat ∧ c.toNat < 0x110000 := c.valid
    omega
  cases h with
  | plain => exact hchar _
  | letter => exact hchar _
  | hex h₃ h₂ h₁ h₀ =>
    have := h₃.1
    have := h₂.1
    have := h₁.1
    have := h₀.1
    omega

theorem SpellsUnits.lt {text : List Char} {us : List Nat} (h : SpellsUnits text us) :
    ∀ u ∈ us, u < 0x110000 := by
  induction h with
  | nil => simp
  | cons hu _ ih => exact List.forall_mem_cons.mpr ⟨hu.lt, ih⟩

/-- No character is a surrogate. -/
theorem isSurrogate_toNat (c : Char) :
    isHighSurrogate c.toNat = false ∧ isLowSurrogate c.toNat = false := by
  have hc : c.toNat < 0xd800 ∨ 0xdfff < c.toNat ∧ c.toNat < 0x110000 := c.valid
  simp only [isHighSurrogate, isLowSurrogate, Bool.and_eq_false_iff, decide_eq_false_iff_not]
  omega

theorem CharUnits.joinSurrogates {u : List Nat} {c : Char} (h : CharUnits u c) (done : List Char)
    (us : List Nat) : joinSurrogates done (u ++ us) = Json.joinSurrogates (c :: done) us := by
  cases h with
  | scalar c =>
    obtain ⟨hhigh, hlow⟩ := isSurrogate_toNat c
    rw [List.cons_append, List.nil_append, joinSurrogates.eq_def]
    simp [hhigh, hlow]
  | @surrogates high low c hhigh hlow hc =>
    have hcode : Char.ofNat (0x10000 + high * 0x400 + low) = c := hc ▸ Char.ofNat_toNat c
    have hhigh : isHighSurrogate (0xd800 + high) = true := by simp [isHighSurrogate]; omega
    have hlow : isLowSurrogate (0xdc00 + low) = true := by simp [isLowSurrogate]; omega
    rw [List.cons_append, List.cons_append, List.nil_append, joinSurrogates.eq_def]
    simp [hhigh, hlow, hcode]

theorem TextUnits.joinSurrogates {us : List Nat} {cs : List Char} (h : TextUnits us cs)
    (done : List Char) : joinSurrogates done us = some (done.reverse ++ cs) := by
  induction h generalizing done with
  | nil => simp [Json.joinSurrogates]
  | cons hu _ ih => simp [hu.joinSurrogates, ih]

theorem toNat_ofNat {u : Nat} (h : u.isValidChar) : (Char.ofNat u).toNat = u := by
  rw [Char.ofNat, dif_pos h]
  rfl

/-- Code units that are joined to a text are those of its characters. -/
theorem textUnits_of_joinSurrogates {us : List Nat} (hlt : ∀ u ∈ us, u < 0x110000) {done r : List Char}
    (h : joinSurrogates done us = some r) : ∃ cs, TextUnits us cs := by
  fun_induction joinSurrogates done us with
  | case1 => exact ⟨[], .nil⟩
  | case2 done u hhigh l rest hlow ih =>
    simp only [isHighSurrogate, isLowSurrogate, Bool.and_eq_true, decide_eq_true_eq] at hhigh hlow
    obtain ⟨cs, hcs⟩ := ih (fun u hu => hlt u (by simp [hu])) h
    have hpair : CharUnits [0xd800 + (u - 0xd800), 0xdc00 + (l - 0xdc00)]
        (Char.ofNat (0x10000 + (u - 0xd800) * 0x400 + (l - 0xdc00))) := by
      exact .surrogates (by omega) (by omega) (toNat_ofNat (.inr ⟨by omega, by omega⟩))
    rw [show 0xd800 + (u - 0xd800) = u by omega, show 0xdc00 + (l - 0xdc00) = l by omega] at hpair
    exact ⟨_, .cons hpair hcs⟩
  | case3 => simp at h
  | case4 => simp at h
  | case5 => simp at h
  | case6 done u rest hhigh hlow ih =>
    obtain ⟨cs, hcs⟩ := ih (fun u hu => hlt u (by simp [hu])) h
    have hu := hlt u (by simp)
    simp only [isHighSurrogate, isLowSurrogate, Bool.and_eq_true, decide_eq_true_eq] at hhigh hlow
    have hvalid : u.isValidChar := by
      show u < 0xd800 ∨ 0xdfff < u ∧ u < 0x110000
      omega
    have hscalar := CharUnits.scalar (Char.ofNat u)
    rw [toNat_ofNat hvalid] at hscalar
    exact ⟨_, .cons hscalar hcs⟩

theorem SpellsText.stringLiteral? {text : List Char} {t : Text} (h : SpellsText text t)
    (rest : List Char) :
    ∃ body, text ++ rest = '"' :: body ∧ stringLiteral? body = some (t, rest) := by
  cases h with
  | @text body us s hbody hus =>
    refine ⟨body ++ '"' :: rest, by simp, ?_⟩
    rw [Json.stringLiteral?, hbody.units?]
    simp [hus.joinSurrogates]
  | @lone body us hbody hus =>
    have hnone : joinSurrogates [] us = none := by
      refine Option.eq_none_iff_forall_ne_some.mpr fun r hr => ?_
      obtain ⟨cs, hcs⟩ := textUnits_of_joinSurrogates hbody.lt hr
      exact hus cs hcs
    refine ⟨body ++ '"' :: rest, by simp, ?_⟩
    rw [Json.stringLiteral?, hbody.units?]
    simp [hnone]

/-! ### Reading number literals -/

/-- Whether a number literal ends before a text. -/
def Ends (rest : List Char) : Prop :=
  ∀ c ∈ rest.head?, isDigit c = false ∧ c ≠ '.' ∧ ¬ IsExponentLetter c

theorem ends_nil : Ends [] := nofun

theorem ends_cons {c : Char} (h : isDigit c = false ∧ c ≠ '.' ∧ c ≠ 'e' ∧ c ≠ 'E')
    (rest : List Char) : Ends (c :: rest) := by
  intro d hd
  obtain rfl := Option.some.inj hd
  exact ⟨h.1, h.2.1, not_or.mpr h.2.2⟩

theorem takeWhile_isDigit {digits rest : List Char} (h : ∀ c ∈ digits, isDigit c)
    (hrest : ∀ c ∈ rest.head?, isDigit c = false) :
    (digits ++ rest).takeWhile isDigit = digits ∧ (digits ++ rest).dropWhile isDigit = rest := by
  rw [List.takeWhile_append_of_pos h, List.dropWhile_append_of_pos h]
  cases rest with
  | nil => simp
  | cons c rest => simp [hrest c rfl]

/-- An exponent without a sign begins with a digit. -/
theorem exponentSign_digits {digits : List Char} (hne : digits ≠ []) (h : ∀ c ∈ digits, isDigit c)
    (rest : List Char) : exponentSign (digits ++ rest) = (false, digits ++ rest) := by
  obtain ⟨c, digits, rfl⟩ := List.exists_cons_of_ne_nil hne
  have hc := h c List.mem_cons_self
  unfold exponentSign
  split
  · next e =>
    obtain ⟨rfl, -⟩ := List.cons.inj e
    exact absurd hc (by decide)
  · next e =>
    obtain ⟨rfl, -⟩ := List.cons.inj e
    exact absurd hc (by decide)
  · rfl

theorem exponent?_letter {e : Char} (he : IsExponentLetter e) {digits text rest : List Char}
    {negative : Bool} (hne : digits ≠ []) (h : ∀ c ∈ digits, isDigit c) (hrest : Ends rest)
    (hsign : exponentSign text = (negative, digits ++ rest)) :
    exponent? (e :: text) = some (some (negative, digits), rest) := by
  obtain ⟨htake, hdrop⟩ := takeWhile_isDigit h fun c hc => (hrest c hc).1
  rw [exponent?, if_pos (show e = 'e' ∨ e = 'E' from he), hsign]
  simp only [htake, hdrop, List.isEmpty_iff, hne, if_false]

theorem SpellsExponent.exponent? {text : List Char} {e : Option (Bool × List Char)}
    (h : SpellsExponent text e) (he : ∀ e' ∈ e, e'.2 ≠ [] ∧ ∀ c ∈ e'.2, isDigit c) {rest : List Char}
    (hrest : Ends rest) : exponent? (text ++ rest) = some (e, rest) := by
  cases h with
  | absent =>
    cases rest with
    | nil => rfl
    | cons c rest =>
      have hc : ¬ (c = 'e' ∨ c = 'E') := (hrest c rfl).2.2
      rw [List.nil_append, Json.exponent?, if_neg hc]
  | unsigned hletter digits =>
    obtain ⟨hne, hdigits⟩ := he _ rfl
    exact exponent?_letter hletter hne hdigits hrest (exponentSign_digits hne hdigits rest)
  | plus hletter digits =>
    obtain ⟨hne, hdigits⟩ := he _ rfl
    exact exponent?_letter hletter hne hdigits hrest rfl
  | minus hletter digits =>
    obtain ⟨hne, hdigits⟩ := he _ rfl
    exact exponent?_letter hletter hne hdigits hrest rfl

/-- What follows the digits of a number. -/
theorem SpellsExponent.head {text : List Char} {e : Option (Bool × List Char)}
    (h : SpellsExponent text e) {rest : List Char} (hrest : Ends rest) :
    ∀ c ∈ (text ++ rest).head?, isDigit c = false ∧ c ≠ '.' := by
  have hletter : ∀ c, IsExponentLetter c → isDigit c = false ∧ c ≠ '.' := by
    rintro c (rfl | rfl) <;> decide
  intro c hc
  cases h with
  | absent => exact ⟨(hrest c hc).1, (hrest c hc).2.1⟩
  | unsigned he => exact Option.some.inj hc ▸ hletter _ he
  | plus he => exact Option.some.inj hc ▸ hletter _ he
  | minus he => exact Option.some.inj hc ▸ hletter _ he

theorem fraction?_pointed {digits rest : List Char} (h : ∀ c ∈ digits, isDigit c)
    (hrest : ∀ c ∈ rest.head?, isDigit c = false ∧ c ≠ '.') :
    fraction? (pointed digits ++ rest) = some (digits, rest) := by
  cases digits with
  | nil =>
    show fraction? rest = _
    unfold fraction?
    split
    · exact absurd rfl (hrest '.' rfl).2
    · rfl
  | cons d digits =>
    obtain ⟨htake, hdrop⟩ := takeWhile_isDigit h fun c hc => (hrest c hc).1
    show fraction? ('.' :: (d :: digits ++ rest)) = _
    simp only [fraction?, htake, hdrop, List.isEmpty_cons, Bool.false_eq_true, if_false]

theorem magnitude?_spelled {n : Number} {exponent : List Char} (hn : n.IsLiteral)
    (he : SpellsExponent exponent n.exponent) {rest : List Char} (hrest : Ends rest) :
    magnitude? n.negative (n.whole ++ (pointed n.fraction ++ (exponent ++ rest))) = some (n, rest) := by
  have htail := he.head hrest
  have hhead : ∀ c ∈ (pointed n.fraction ++ (exponent ++ rest)).head?, isDigit c = false := by
    intro c hc
    unfold pointed at hc
    split at hc
    · exact (htail c hc).1
    · obtain rfl := Option.some.inj hc
      rfl
  obtain ⟨htake, hdrop⟩ := takeWhile_isDigit hn.whole_digits hhead
  simp only [magnitude?, htake, hdrop, hn.whole, if_true, fraction?_pointed hn.fraction_digits htail,
    he.exponent? hn.exponent hrest, Option.bind_eq_bind, Option.bind_some, Option.pure_def]

/-! ### Tokens -/

theorem token?_digit {c : Char} (hc : isDigit c) (rest : List Char) :
    token? c rest
      = (magnitude? false (c :: rest)).map fun (n, rest) => (.scalar (.number n), rest) := by
  unfold token?
  split
  iterate 11 exact absurd hc (by decide)
  rw [if_pos hc]

/-- Whether a text is the token of a scalar. -/
def IsScalarToken (text : List Char) (v : Value) : Prop :=
  ∀ rest, Ends rest → ∃ c text', text ++ rest = c :: text' ∧ isBlank c = false ∧
    token? c text' = some (.scalar v, rest)

theorem SpellsNumber.token {text : List Char} {n : Number} (h : SpellsNumber text n) :
    IsScalarToken text (.number n) := by
  obtain ⟨hn, he⟩ := h
  rename_i exponent
  intro rest hrest
  have hscalar := congrArg
    (Option.map fun r : Number × List Char => (Token.scalar (.number r.1), r.2))
    (magnitude?_spelled hn he hrest)
  simp only [List.append_assoc]
  cases hnegative : n.negative with
  | true =>
    rw [hnegative] at hscalar
    exact ⟨'-', _, rfl, rfl, hscalar⟩
  | false =>
    rw [hnegative] at hscalar
    obtain ⟨c, digits, hwhole⟩ : ∃ c digits, n.whole = c :: digits := by
      refine List.exists_cons_of_ne_nil fun hnil => ?_
      simpa [hnil, isWhole] using hn.whole
    have hc : isDigit c := hn.whole_digits c (by simp [hwhole])
    have hblank : isBlank c = false := by
      refine Bool.eq_false_iff.mpr fun hblank => ?_
      simp only [isBlank, Bool.or_eq_true, decide_eq_true_eq] at hblank
      rcases hblank with ((rfl | rfl) | rfl) | rfl <;> exact absurd hc (by decide)
    rw [hwhole] at hscalar ⊢
    exact ⟨c, _, rfl, hblank, (token?_digit hc _).trans hscalar⟩

theorem SpellsText.token {text : List Char} {t : Text} (h : SpellsText text t) (rest : List Char) :
    ∃ text', text ++ rest = '"' :: text' ∧ token? '"' text' = some (.scalar (.string t), rest) := by
  obtain ⟨body, htext, hliteral⟩ := h.stringLiteral? rest
  exact ⟨body, htext, by simp [token?, hliteral]⟩

/-! ### The machine -/

/-- The machine takes a token. -/
theorem run?_token {st : State} {c : Char} {text rest : List Char} {t : Token}
    (hblank : isBlank c = false) (ht : token? c text = some (t, rest)) :
    run? st (c :: text) = (st.step? t).bind fun st => run? st rest := by
  rw [run?, if_neg (by simp [hblank])]
  split
  · next hnone => simp [ht] at hnone
  · next t' rest' hsome =>
    obtain ⟨rfl, rfl⟩ := Prod.mk.inj (Option.some.inj (ht.symm.trans hsome))
    split
    · next hstep => rw [hstep, Option.bind_none]
    · next hstep => rw [hstep, Option.bind_some]

/-- The machine passes white space over. -/
theorem run?_blank {blank : List Char} (h : IsBlank blank) (st : State) (rest : List Char) :
    run? st (blank ++ rest) = run? st rest := by
  induction blank with
  | nil => rfl
  | cons c blank ih =>
    obtain ⟨hc, hblank⟩ := List.forall_mem_cons.mp h
    rw [List.cons_append, run?, if_pos hc, ih hblank]

/-- A number ends before white space. -/
theorem ends_blank {blank rest : List Char} (h : IsBlank blank) (hrest : Ends rest) :
    Ends (blank ++ rest) := by
  cases blank with
  | nil => exact hrest
  | cons c blank =>
    have hc := h c List.mem_cons_self
    simp only [isBlank, Bool.or_eq_true, decide_eq_true_eq] at hc
    rcases hc with ((rfl | rfl) | rfl) | rfl <;> exact ends_cons (by decide) _

/-- Whether a value may begin in a state, with some containers around it. -/
def State.Expects (stack : List Frame) (st : State) : Prop :=
  ∀ t, t ≠ .closeArray → st.step? t = State.begin? stack t

theorem State.expects_value (stack : List Frame) : (State.value stack).Expects stack :=
  fun _ _ => rfl

theorem State.expects_firstItem (stack : List Frame) :
    (State.firstItem stack).Expects (.array [] :: stack) := by
  intro t ht
  cases t with
  | closeArray => exact absurd rfl ht
  | _ => rfl

/-- Whether a key may come next in a state, in an object with some members. -/
def State.ExpectsKey (members : List (Text × Value)) (stack : List Frame) (st : State) : Prop :=
  ∀ k, st.step? (.scalar (.string k)) = some (.colon (.member members k :: stack))

/-- From where a phrase may begin to where it has been handed to the container that it stands in. -/
inductive Phrase.Leads : Phrase → State → Option State → Prop
  | value {st : State} {stack : List Frame} (h : st.Expects stack) (v : Value) :
      Leads (.value v) st (State.deliver? v stack)
  | items {st : State} {done : List Value} {stack : List Frame} (h : st.Expects (.array done :: stack))
      (items : List Value) :
      Leads (.items items) st (some (.separator (.array (items.reverse ++ done) :: stack)))
  | members {st : State} {done : List (Text × Value)} {stack : List Frame}
      (h : st.ExpectsKey done stack) (members : List (Text × Value)) :
      Leads (.members members) st (some (.separator (.object (members.reverse ++ done) :: stack)))

/-- The machine goes over a phrase to where that leads. -/
def Phrase.Reads (text : List Char) (p : Phrase) : Prop :=
  ∀ {st : State} {out : Option State} {rest : List Char}, p.Leads st out → Ends rest →
    run? st (text ++ rest) = out.bind fun st => run? st rest

theorem IsScalarToken.reads {text : List Char} {v : Value} (h : IsScalarToken text v) :
    (Phrase.value v).Reads text := by
  intro st out rest hleads hrest
  obtain ⟨c, text', htext, hblank, ht⟩ := h rest hrest
  cases hleads with
  | value hst =>
    rw [htext, run?_token hblank ht, hst (.scalar v) nofun]
    rfl

theorem Phrase.Reads.array {text : List Char} {items : List Value}
    (h : (Phrase.items items).Reads text) : (Phrase.value (.array items)).Reads ('[' :: (text ++ [']'])) := by
  intro st out rest hleads _
  cases hleads with
  | @value _ stack hst =>
    rw [List.cons_append, List.append_assoc, run?_token rfl rfl, hst .openArray nofun]
    show run? (.firstItem stack) (text ++ ']' :: rest) = _
    rw [h (.items (State.expects_firstItem stack) items) (ends_cons (by decide) rest), Option.bind_some,
      run?_token rfl rfl]
    simp [State.step?]

theorem Phrase.Reads.object {text : List Char} {members : List (Text × Value)}
    (h : (Phrase.members members).Reads text) :
    (Phrase.value (.object members)).Reads ('\x7b' :: (text ++ ['\x7d'])) := by
  intro st out rest hleads _
  cases hleads with
  | @value _ stack hst =>
    have hkey : (State.firstKey stack).ExpectsKey [] stack := fun _ => rfl
    rw [List.cons_append, List.append_assoc, run?_token rfl rfl, hst .openObject nofun]
    show run? (.firstKey stack) (text ++ '\x7d' :: rest) = _
    rw [h (.members hkey members) (ends_cons (by decide) rest), Option.bind_some, run?_token rfl rfl]
    simp [State.step?]

theorem Phrase.Reads.member {name blank text : List Char} {k : Text} {v : Value}
    (hname : SpellsText name k) (hblank : IsBlank blank) (h : (Phrase.value v).Reads text) :
    (Phrase.members [(k, v)]).Reads (name ++ (blank ++ ':' :: text)) := by
  intro st out rest hleads hrest
  cases hleads with
  | @members _ done stack hst =>
    simp only [List.append_assoc, List.cons_append]
    obtain ⟨text', htext, ht⟩ := hname.token (blank ++ ':' :: (text ++ rest))
    rw [htext, run?_token rfl ht, hst k, Option.bind_some, run?_blank hblank, run?_token rfl rfl]
    exact h (.value (State.expects_value (.member done k :: stack)) v) hrest

/-- The machine reads every text of the grammar. -/
theorem Spells.reads {text : List Char} {p : Phrase} (h : Spells text p) : p.Reads text := by
  induction h with
  | null => exact IsScalarToken.reads fun rest _ => ⟨'n', _, rfl, rfl, rfl⟩
  | true => exact IsScalarToken.reads fun rest _ => ⟨'t', _, rfl, rfl, rfl⟩
  | false => exact IsScalarToken.reads fun rest _ => ⟨'f', _, rfl, rfl, rfl⟩
  | number h => exact h.token.reads
  | string h =>
    refine IsScalarToken.reads fun rest _ => ?_
    obtain ⟨text', htext, ht⟩ := h.token rest
    exact ⟨'"', text', htext, rfl, ht⟩
  | emptyArray hblank =>
    rintro st out rest ⟨hst⟩ _
    rw [List.cons_append, List.append_assoc, run?_token rfl rfl, hst .openArray nofun]
    show run? (.firstItem _) _ = _
    rw [run?_blank hblank, List.singleton_append, run?_token rfl rfl]
    rfl
  | array _ ih => exact ih.array
  | item _ ih =>
    intro st out rest hleads hrest
    cases hleads with
    | items hst => exact ih (.value hst _) hrest
  | @moreItems text text' items items' _ _ ih ih' =>
    intro st out rest hleads hrest
    cases hleads with
    | @items _ done stack hst =>
      rw [List.append_assoc, List.cons_append, ih (.items hst items) (ends_cons (by decide) _),
        Option.bind_some, run?_token rfl rfl]
      show run? (.value (.array (items.reverse ++ done) :: stack)) _ = _
      rw [ih' (.items (State.expects_value _) items') hrest, List.reverse_append, List.append_assoc]
  | emptyObject hblank =>
    rintro st out rest ⟨hst⟩ _
    rw [List.cons_append, List.append_assoc, run?_token rfl rfl, hst .openObject nofun]
    show run? (.firstKey _) _ = _
    rw [run?_blank hblank, List.singleton_append, run?_token rfl rfl]
    rfl
  | object _ ih => exact ih.object
  | member hname hblank _ ih => exact Phrase.Reads.member hname hblank ih
  | @moreMembers text text' members members' _ _ ih ih' =>
    intro st out rest hleads hrest
    cases hleads with
    | @members _ done stack hst =>
      have hkey : (State.key (members.reverse ++ done) stack).ExpectsKey (members.reverse ++ done) stack :=
        fun _ => rfl
      rw [List.append_assoc, List.cons_append, ih (.members hst members) (ends_cons (by decide) _),
        Option.bind_some, run?_token rfl rfl]
      show run? (.key (members.reverse ++ done) stack) _ = _
      rw [ih' (.members hkey members') hrest, List.reverse_append, List.append_assoc]
  | blankBefore hblank _ ih =>
    intro st out rest hleads hrest
    rw [List.append_assoc, run?_blank hblank, ih hleads hrest]
  | blankAfter hblank _ ih =>
    intro st out rest hleads hrest
    rw [List.append_assoc, ih hleads (ends_blank hblank hrest)]
    simp only [run?_blank hblank]

/-- What a text says is read from it. -/
theorem Spells.read? {text : String} {v : Value} (h : Spells text.toList (.value v)) :
    Value.read? text = some v := by
  have hread := h.reads (.value (State.expects_value []) v) ends_nil
  rw [List.append_nil] at hread
  rw [Value.read?, hread]
  show run? (.done v) [] = some v
  rw [run?]

end CallTrace.Json
