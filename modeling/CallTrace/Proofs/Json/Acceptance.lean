import CallTrace.Proofs.Json.Grammar
import Mathlib.Data.List.TakeWhile

/-! # Which texts are read

The reader takes no other texts than those of the grammar, and reads from each of them what it says
(`Value.read?_eq_some_iff`).  So no text says two things (`Spells.unique`).

The invariant is about the text behind the machine.  Around the place that it has come to are
containers that have been opened and not yet closed (`Opened`), and its state tells which part of the
innermost one ends there (`Reached`).  Whenever the machine takes a token, the text is of this form
again (`Reached.step`). -/

namespace CallTrace.Json

/-! ### String literals -/

theorem isHexDigit_of_hexValue? {c : Char} {d : Nat} (h : hexValue? c = some d) : IsHexDigit c d := by
  have hall : ∀ n < 103, ∀ d ∈ hexValue? (Char.ofNat n), d < 16 ∧
      (Char.ofNat n = Nat.digitChar d ∨ Char.ofNat n = (Nat.digitChar d).toUpper) := by decide
  have hletter : c.toNat ≤ 'f'.toNat := by
    unfold hexValue? at h
    split at h
    · next hd =>
      simp only [isDigit, Bool.and_eq_true, decide_eq_true_eq] at hd
      exact Nat.le_trans hd.2 (by decide)
    · split at h
      · next hlower => exact hlower.2
      · split at h
        · next hupper => exact Nat.le_trans hupper.2 (by decide)
        · simp at h
  have hc := hall c.toNat (Nat.lt_succ_of_le hletter) d
  rw [Char.ofNat_toNat] at hc
  exact hc h

theorem mem_of_escaped? {e c : Char} (h : escaped? e = some c) : (e, c) ∈ escapeLetters := by
  unfold escaped? at h
  split at h
  iterate 8 exact Option.some.inj h ▸ by decide
  simp at h

theorem spellsUnit_of_codeUnit? {c₃ c₂ c₁ c₀ : Char} {u : Nat} (h : codeUnit? c₃ c₂ c₁ c₀ = some u) :
    SpellsUnit ['\\', 'u', c₃, c₂, c₁, c₀] u := by
  simp only [codeUnit?, Option.bind_eq_bind, Option.bind_eq_some_iff, Option.pure_def,
    Option.some.injEq] at h
  obtain ⟨d₃, h₃, d₂, h₂, d₁, h₁, d₀, h₀, rfl⟩ := h
  exact .hex (isHexDigit_of_hexValue? h₃) (isHexDigit_of_hexValue? h₂) (isHexDigit_of_hexValue? h₁)
    (isHexDigit_of_hexValue? h₀)

/-- What is read up to the closing quote are code units. -/
theorem spellsUnits_of_units? {done us : List Nat} {text rest : List Char}
    (h : units? done text = some (us, rest)) :
    ∃ body us', text = body ++ '"' :: rest ∧ SpellsUnits body us' ∧ us = done.reverse ++ us' := by
  fun_induction units? done text with
  | case1 => simp at h
  | case2 =>
    obtain ⟨rfl, rfl⟩ := Prod.mk.inj (Option.some.inj h)
    exact ⟨[], [], rfl, .nil, (List.append_nil _).symm⟩
  | case3 _ _ _ _ _ _ _ hu _ ih =>
    obtain ⟨body, us', rfl, hbody, rfl⟩ := ih h
    exact ⟨_, _, rfl, .cons (spellsUnit_of_codeUnit? hu) hbody, by simp⟩
  | case4 => simp at h
  | case5 _ _ _ _ _ hc _ ih =>
    obtain ⟨body, us', rfl, hbody, rfl⟩ := ih h
    exact ⟨_, _, rfl, .cons (.letter (mem_of_escaped? hc)) hbody, by simp⟩
  | case6 => simp at h
  | case7 => simp at h
  | case8 => simp at h
  | case9 _ _ _ hquote hbackslash hcontrol ih =>
    obtain ⟨body, us', rfl, hbody, rfl⟩ := ih h
    exact ⟨_, _, rfl, .cons (.plain (Nat.not_lt.mp hcontrol) hquote hbackslash) hbody, by simp⟩

theorem spellsText_of_stringLiteral? {text rest : List Char} {t : Text}
    (h : stringLiteral? text = some (t, rest)) :
    ∃ literal, '"' :: text = literal ++ rest ∧ SpellsText literal t := by
  obtain ⟨⟨us, _⟩, hunits, hjoined⟩ := Option.map_eq_some_iff.mp h
  obtain ⟨rfl, rfl⟩ := Prod.mk.inj hjoined
  obtain ⟨body, us, rfl, hbody, rfl⟩ := spellsUnits_of_units? hunits
  refine ⟨'"' :: (body ++ ['"']), by simp, ?_⟩
  show SpellsText _ ((joinSurrogates [] us).map String.ofList)
  cases hjoin : joinSurrogates [] us with
  | none =>
    refine .lone hbody fun cs hcs => ?_
    simp [hcs.joinSurrogates] at hjoin
  | some cs =>
    obtain ⟨cs', hcs⟩ := textUnits_of_joinSurrogates hbody.lt hjoin
    obtain rfl : cs' = cs := by simpa [hcs.joinSurrogates] using hjoin
    exact .text hbody (by rwa [String.toList_ofList])

/-! ### Number literals -/

theorem pointed_of_fraction? {text digits rest : List Char} (h : fraction? text = some (digits, rest)) :
    text = pointed digits ++ rest ∧ ∀ c ∈ digits, isDigit c := by
  unfold fraction? at h
  split at h
  · next text =>
    dsimp only at h
    split at h
    · simp at h
    · next hne =>
      obtain ⟨rfl, rfl⟩ := Prod.mk.inj (Option.some.inj h)
      exact ⟨by simp [pointed, hne], fun _ => List.mem_takeWhile_imp⟩
  · obtain ⟨rfl, rfl⟩ := Prod.mk.inj (Option.some.inj h)
    exact ⟨rfl, nofun⟩

/-- An exponent after its letter, with or without a sign. -/
theorem spellsExponent_of_sign {e : Char} (he : IsExponentLetter e) {text digits rest : List Char}
    {negative : Bool} (h : exponentSign text = (negative, digits ++ rest)) :
    ∃ literal, e :: text = literal ++ rest ∧ SpellsExponent literal (some (negative, digits)) := by
  unfold exponentSign at h
  split at h <;> obtain ⟨rfl, rfl⟩ := Prod.mk.inj h
  · exact ⟨_, rfl, .plus he digits⟩
  · exact ⟨_, rfl, .minus he digits⟩
  · exact ⟨_, rfl, .unsigned he digits⟩

theorem spellsExponent_of_exponent? {text rest : List Char} {exponent : Option (Bool × List Char)}
    (h : exponent? text = some (exponent, rest)) :
    ∃ literal, text = literal ++ rest ∧ SpellsExponent literal exponent ∧
      ∀ e ∈ exponent, e.2 ≠ [] ∧ ∀ c ∈ e.2, isDigit c := by
  unfold exponent? at h
  split at h
  · next c text =>
    split at h
    · next hletter =>
      dsimp only at h
      split at h
      · simp at h
      · next hne =>
        obtain ⟨rfl, rfl⟩ := Prod.mk.inj (Option.some.inj h)
        have hsign : exponentSign text = ((exponentSign text).1, (exponentSign text).2.takeWhile isDigit
            ++ (exponentSign text).2.dropWhile isDigit) := by rw [List.takeWhile_append_dropWhile]
        obtain ⟨literal, htext, hliteral⟩ := spellsExponent_of_sign hletter hsign
        refine ⟨literal, htext, hliteral, fun e he => ?_⟩
        obtain rfl := Option.some.inj he
        exact ⟨by simpa using hne, fun _ => List.mem_takeWhile_imp⟩
    · obtain ⟨rfl, rfl⟩ := Prod.mk.inj (Option.some.inj h)
      exact ⟨[], rfl, .absent, nofun⟩
  · obtain ⟨rfl, rfl⟩ := Prod.mk.inj (Option.some.inj h)
    exact ⟨[], rfl, .absent, nofun⟩

theorem spellsNumber_of_magnitude? {negative : Bool} {text rest : List Char} {n : Number}
    (h : magnitude? negative text = some (n, rest)) :
    ∃ literal, (if negative then ['-'] else []) ++ text = literal ++ rest ∧ SpellsNumber literal n := by
  unfold magnitude? at h
  dsimp only at h
  split at h
  · next hwhole =>
    simp only [Option.bind_eq_bind, Option.bind_eq_some_iff, Option.pure_def, Option.some.injEq,
      Prod.exists, Prod.mk.injEq] at h
    obtain ⟨fraction, _, hfraction, exponent, _, hexponent, rfl, rfl⟩ := h
    obtain ⟨hpointed, hdigits⟩ := pointed_of_fraction? hfraction
    obtain ⟨literal, rfl, hliteral, hlegal⟩ := spellsExponent_of_exponent? hexponent
    have hn : Number.IsLiteral ⟨negative, text.takeWhile isDigit, fraction, exponent⟩ :=
      ⟨hwhole, fun _ => List.mem_takeWhile_imp, hdigits, hlegal⟩
    refine ⟨_, ?_, .mk hn hliteral⟩
    calc (if negative then ['-'] else []) ++ text
        = (if negative then ['-'] else []) ++ (text.takeWhile isDigit ++ text.dropWhile isDigit) := by
          rw [List.takeWhile_append_dropWhile]
      _ = _ := by simp [hpointed]
  · simp at h

/-! ### Tokens -/

/-- Which texts are tokens. -/
inductive SpellsToken : List Char → Token → Prop
  | openArray : SpellsToken ['['] .openArray
  | closeArray : SpellsToken [']'] .closeArray
  | openObject : SpellsToken ['\x7b'] .openObject
  | closeObject : SpellsToken ['\x7d'] .closeObject
  | comma : SpellsToken [','] .comma
  | colon : SpellsToken [':'] .colon
  | null : SpellsToken ['n', 'u', 'l', 'l'] (.scalar .null)
  | true : SpellsToken ['t', 'r', 'u', 'e'] (.scalar (.bool true))
  | false : SpellsToken ['f', 'a', 'l', 's', 'e'] (.scalar (.bool false))
  | number {text : List Char} {n : Number} (h : SpellsNumber text n) :
      SpellsToken text (.scalar (.number n))
  | string {text : List Char} {t : Text} (h : SpellsText text t) : SpellsToken text (.scalar (.string t))

theorem after?_eq_some {word text rest : List Char} (h : after? word text = some rest) :
    text = word ++ rest := by
  fun_induction after? word text with
  | case1 => exact Option.some.inj h
  | case2 _ _ _ ih => rw [ih h, List.cons_append]
  | case3 => simp at h
  | case4 => simp at h

theorem spellsToken_of_token? {c : Char} {text rest : List Char} {t : Token}
    (h : token? c text = some (t, rest)) :
    ∃ literal, c :: text = literal ++ rest ∧ SpellsToken literal t := by
  have hword : ∀ {c : Char} {word : List Char} {t' : Token}, SpellsToken (c :: word) t' →
      (after? word text).map (t', ·) = some (t, rest) →
      ∃ literal, c :: text = literal ++ rest ∧ SpellsToken literal t := by
    intro c word t' ht' h
    obtain ⟨rest, hrest, heq⟩ := Option.map_eq_some_iff.mp h
    obtain ⟨rfl, rfl⟩ := Prod.mk.inj heq
    exact ⟨_, congrArg _ (after?_eq_some hrest), ht'⟩
  have hnumber : ∀ {negative : Bool} {text : List Char},
      (magnitude? negative text).map (fun r => (Token.scalar (.number r.1), r.2)) = some (t, rest) →
      ∃ literal, (if negative then ['-'] else []) ++ text = literal ++ rest ∧ SpellsToken literal t := by
    intro negative text h
    obtain ⟨⟨n, rest⟩, hnumber, heq⟩ := Option.map_eq_some_iff.mp h
    obtain ⟨rfl, rfl⟩ := Prod.mk.inj heq
    obtain ⟨literal, htext, hspells⟩ := spellsNumber_of_magnitude? hnumber
    exact ⟨literal, htext, .number hspells⟩
  unfold token? at h
  split at h
  -- the six marks
  iterate 6
    · obtain ⟨rfl, rfl⟩ := Prod.mk.inj (Option.some.inj h)
      exact ⟨_, rfl, by constructor⟩
  · obtain ⟨⟨t, rest⟩, hliteral, heq⟩ := Option.map_eq_some_iff.mp h
    obtain ⟨rfl, rfl⟩ := Prod.mk.inj heq
    obtain ⟨literal, htext, hspells⟩ := spellsText_of_stringLiteral? hliteral
    exact ⟨literal, htext, .string hspells⟩
  · exact hword .null h
  · exact hword .true h
  · exact hword .false h
  · exact hnumber h
  · split at h
    · exact hnumber h
    · simp at h

theorem SpellsToken.spells {text : List Char} {v : Value} (h : SpellsToken text (.scalar v)) :
    Spells text (.value v) := by
  cases h with
  | null => exact .null
  | true => exact .true
  | false => exact .false
  | number h => exact .number h
  | string h => exact .string h

/-! ### The machine -/

/-- The text before a further item of an array or member of an object: nothing but white space, or some
of them and a comma. -/
inductive Precedes {α : Type} (phrase : List α → Phrase) : List Char → List α → Prop
  | nothing {blank : List Char} (hblank : IsBlank blank) : Precedes phrase blank []
  | some {text blank : List Char} {parts : List α} (h : Spells text (phrase parts))
      (hblank : IsBlank blank) : Precedes phrase (text ++ ',' :: blank) parts

theorem IsBlank.append {blank blank' : List Char} (h : IsBlank blank) (h' : IsBlank blank') :
    IsBlank (blank ++ blank') := List.forall_mem_append.mpr ⟨h, h'⟩

section Precedes
variable {text blank : List Char}

theorem Precedes.blankAfter {α : Type} {phrase : List α → Phrase} {parts : List α}
    (h : Precedes phrase text parts) (hblank : IsBlank blank) : Precedes phrase (text ++ blank) parts := by
  cases h with
  | nothing h => exact .nothing (h.append hblank)
  | some h hbefore =>
    rw [List.append_assoc, List.cons_append]
    exact .some h (hbefore.append hblank)

theorem Precedes.items {items : List Value} (h : Precedes .items text items) {value : List Char}
    {v : Value} (hv : Spells value (.value v)) : Spells (text ++ value) (.items (items ++ [v])) := by
  cases h with
  | nothing hblank => exact .blankBefore hblank (.item hv)
  | some h hblank =>
    rw [List.append_assoc, List.cons_append]
    exact .moreItems h (.item (.blankBefore hblank hv))

theorem Precedes.members {members : List (Text × Value)} (h : Precedes .members text members)
    {member : List Char} {k : Text} {v : Value} (hv : Spells member (.members [(k, v)])) :
    Spells (text ++ member) (.members (members ++ [(k, v)])) := by
  cases h with
  | nothing hblank => exact .blankBefore hblank hv
  | some h hblank =>
    rw [List.append_assoc, List.cons_append]
    exact .moreMembers h (.blankBefore hblank hv)

end Precedes

/-- The text before a value with some containers around it. -/
inductive Opened : List Char → List Frame → Prop
  | top {blank : List Char} (hblank : IsBlank blank) : Opened blank []
  | array {text before : List Char} {items : List Value} {stack : List Frame} (h : Opened text stack)
      (hbefore : Precedes .items before items.reverse) :
      Opened (text ++ '[' :: before) (.array items :: stack)
  | member {text before name blank blank' : List Char} {members : List (Text × Value)} {k : Text}
      {stack : List Frame} (h : Opened text stack) (hbefore : Precedes .members before members.reverse)
      (hname : SpellsText name k) (hblank : IsBlank blank) (hblank' : IsBlank blank') :
      Opened (text ++ '\x7b' :: (before ++ (name ++ (blank ++ ':' :: blank'))))
        (.member members k :: stack)

theorem Opened.blankAfter {text blank : List Char} {stack : List Frame} (h : Opened text stack)
    (hblank : IsBlank blank) : Opened (text ++ blank) stack := by
  cases h with
  | top h => exact .top (h.append hblank)
  | array h hbefore =>
    rw [List.append_assoc, List.cons_append]
    exact .array h (hbefore.blankAfter hblank)
  | member h hbefore hname hbefore' hafter =>
    simp only [List.append_assoc, List.cons_append]
    exact .member h hbefore hname hbefore' (hafter.append hblank)

/-- The text before the place where the machine has come to a state. -/
inductive Reached : List Char → State → Prop
  | value {text : List Char} {stack : List Frame} (h : Opened text stack) : Reached text (.value stack)
  | firstItem {text blank : List Char} {stack : List Frame} (h : Opened text stack)
      (hblank : IsBlank blank) : Reached (text ++ '[' :: blank) (.firstItem stack)
  | firstKey {text blank : List Char} {stack : List Frame} (h : Opened text stack)
      (hblank : IsBlank blank) : Reached (text ++ '\x7b' :: blank) (.firstKey stack)
  | key {text before : List Char} {members : List (Text × Value)} {stack : List Frame}
      (h : Opened text stack) (hbefore : Precedes .members before members.reverse) :
      Reached (text ++ '\x7b' :: before) (.key members stack)
  | colon {text before name blank : List Char} {members : List (Text × Value)} {k : Text}
      {stack : List Frame} (h : Opened text stack) (hbefore : Precedes .members before members.reverse)
      (hname : SpellsText name k) (hblank : IsBlank blank) :
      Reached (text ++ '\x7b' :: (before ++ (name ++ blank))) (.colon (.member members k :: stack))
  | items {text body : List Char} {items : List Value} {stack : List Frame} (h : Opened text stack)
      (hbody : Spells body (.items items.reverse)) :
      Reached (text ++ '[' :: body) (.separator (.array items :: stack))
  | members {text body : List Char} {members : List (Text × Value)} {stack : List Frame}
      (h : Opened text stack) (hbody : Spells body (.members members.reverse)) :
      Reached (text ++ '\x7b' :: body) (.separator (.object members :: stack))
  | done {text : List Char} {v : Value} (h : Spells text (.value v)) : Reached text (.done v)

theorem Reached.blankAfter {text blank : List Char} {st : State} (h : Reached text st)
    (hblank : IsBlank blank) : Reached (text ++ blank) st := by
  cases h with
  | value h => exact .value (h.blankAfter hblank)
  | firstItem h hbefore =>
    rw [List.append_assoc, List.cons_append]
    exact .firstItem h (hbefore.append hblank)
  | firstKey h hbefore =>
    rw [List.append_assoc, List.cons_append]
    exact .firstKey h (hbefore.append hblank)
  | key h hbefore =>
    rw [List.append_assoc, List.cons_append]
    exact .key h (hbefore.blankAfter hblank)
  | colon h hbefore hname hafter =>
    simp only [List.append_assoc, List.cons_append]
    exact .colon h hbefore hname (hafter.append hblank)
  | items h hbody =>
    rw [List.append_assoc, List.cons_append]
    exact .items h (hbody.blankAfter hblank)
  | members h hbody =>
    rw [List.append_assoc, List.cons_append]
    exact .members h (hbody.blankAfter hblank)
  | done h => exact .done (h.blankAfter hblank)

/-- A value is handed to the container it stands in. -/
theorem Opened.deliver {text literal : List Char} {stack : List Frame} (h : Opened text stack) {v : Value}
    (hv : Spells literal (.value v)) {st : State} (hst : State.deliver? v stack = some st) :
    Reached (text ++ literal) st := by
  cases h with
  | top hblank =>
    obtain rfl := Option.some.inj hst
    exact .done (.blankBefore hblank hv)
  | array h hbefore =>
    obtain rfl := Option.some.inj hst
    rw [List.append_assoc, List.cons_append]
    exact .items h (List.reverse_cons ▸ hbefore.items hv)
  | member h hbefore hname hblank hblank' =>
    obtain rfl := Option.some.inj hst
    simp only [List.append_assoc, List.cons_append]
    refine .members h ?_
    rw [List.reverse_cons]
    exact hbefore.members (.member hname hblank (.blankBefore hblank' hv))

/-- A container is opened, or a scalar is handed on at once. -/
theorem Opened.begin {text literal : List Char} {stack : List Frame} (h : Opened text stack) {t : Token}
    (ht : SpellsToken literal t) {st : State} (hst : State.begin? stack t = some st) :
    Reached (text ++ literal) st := by
  cases t with
  | openArray =>
    cases ht
    obtain rfl := Option.some.inj hst
    exact .firstItem h isBlank_nil
  | openObject =>
    cases ht
    obtain rfl := Option.some.inj hst
    exact .firstKey h isBlank_nil
  | scalar v => exact h.deliver ht.spells hst
  | _ => simp [State.begin?] at hst


/-- A key comes after a brace or a comma. -/
theorem Opened.key {text before literal : List Char} {members : List (Text × Value)}
    {stack : List Frame} (h : Opened text stack) (hbefore : Precedes .members before members.reverse)
    {k : Text} (hk : SpellsToken literal (.scalar (.string k))) :
    Reached (text ++ '\x7b' :: before ++ literal) (.colon (.member members k :: stack)) := by
  cases hk with
  | string hk =>
    have hcolon := Reached.colon h hbefore hk isBlank_nil
    rw [List.append_nil] at hcolon
    simpa only [List.append_assoc, List.cons_append] using hcolon

/-- A token leads from one place to the next. -/
theorem Reached.step {text literal : List Char} {st st' : State} (h : Reached text st) {t : Token}
    (ht : SpellsToken literal t) (hst : st.step? t = some st') : Reached (text ++ literal) st' := by
  cases h with
  | value h => exact h.begin ht hst
  | @firstItem text blank stack h hblank =>
    by_cases hclose : t = .closeArray
    · subst hclose
      cases ht
      rw [List.append_assoc, List.cons_append]
      exact h.deliver (.emptyArray hblank) hst
    · rw [State.expects_firstItem stack t hclose] at hst
      exact (Opened.array h (.nothing hblank)).begin ht hst
  | firstKey h hblank =>
    cases ht with
    | closeObject =>
      rw [List.append_assoc, List.cons_append]
      exact h.deliver (.emptyObject hblank) hst
    | string hk =>
      obtain rfl := Option.some.inj hst
      exact h.key (.nothing hblank) (.string hk)
    | _ => simp [State.step?] at hst
  | key h hbefore =>
    cases ht with
    | string hk =>
      obtain rfl := Option.some.inj hst
      exact h.key hbefore (.string hk)
    | _ => simp [State.step?] at hst
  | colon h hbefore hname hblank =>
    cases ht with
    | colon =>
      obtain rfl := Option.some.inj hst
      simp only [List.append_assoc, List.cons_append]
      exact .value (.member h hbefore hname hblank isBlank_nil)
    | _ => simp [State.step?] at hst
  | items h hbody =>
    rw [List.append_assoc, List.cons_append]
    cases ht with
    | comma =>
      obtain rfl := Option.some.inj hst
      exact .value (.array h (.some hbody isBlank_nil))
    | closeArray => exact h.deliver (.array hbody) hst
    | _ => simp [State.step?] at hst
  | members h hbody =>
    rw [List.append_assoc, List.cons_append]
    cases ht with
    | comma =>
      obtain rfl := Option.some.inj hst
      exact .key h (.some hbody isBlank_nil)
    | closeObject => exact h.deliver (.object hbody) hst
    | _ => simp [State.step?] at hst
  | done h => simp [State.step?] at hst

/-- What the machine ends with is what the text before it and the rest say together. -/
theorem Reached.run {text rest : List Char} {st : State} (h : Reached text st) {v : Value}
    (hrun : run? st rest = some v) : Spells (text ++ rest) (.value v) := by
  fun_induction run? st rest generalizing text with
  | case1 =>
    obtain rfl := Option.some.inj hrun
    cases h with
    | done h => rwa [List.append_nil]
  | case2 => simp at hrun
  | case3 st c rest hblank ih =>
    rw [List.append_cons]
    exact ih (h.blankAfter (List.forall_mem_singleton.mpr hblank)) hrun
  | case4 => simp at hrun
  | case5 => simp at hrun
  | case6 st c rest _ t rest' htoken st' hstep ih =>
    obtain ⟨literal, htext, hliteral⟩ := spellsToken_of_token? htoken
    rw [htext, ← List.append_assoc]
    exact ih (h.step hliteral hstep) hrun

/-- Just the texts of the grammar are read, and each as what it says. -/
theorem Value.read?_eq_some_iff {text : String} {v : Value} :
    read? text = some v ↔ Spells text.toList (.value v) :=
  ⟨fun h => (Reached.value (.top isBlank_nil)).run h, Spells.read?⟩

/-- No text says two things. -/
theorem Spells.unique {text : List Char} {v w : Value} (hv : Spells text (.value v))
    (hw : Spells text (.value w)) : v = w := by
  rw [← String.toList_ofList (l := text)] at hv hw
  exact Option.some.inj (hv.read?.symm.trans hw.read?)

end CallTrace.Json
