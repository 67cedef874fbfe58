import CallTrace.Json.Value

/-! # Reading JSON text

`Value.read?` accepts exactly one JSON value with only space, tab, line feed and carriage return
around it.  The text is cut into tokens from the left (`token?`), and a machine with a stack of
open containers takes one token at a time (`State.step?`).  Since the containers are on that stack
and not in the recursion, nesting has no limit here; `token?_length` is why the reading ends. -/

namespace CallTrace.Json

inductive Token where
  | openArray
  | closeArray
  | openObject
  | closeObject
  | comma
  | colon
  | scalar (v : Value)

/-! ### String literals -/

def hexValue? (c : Char) : Option Nat :=
  if isDigit c then some (digitValue c)
  else if 'a' ≤ c ∧ c ≤ 'f' then some (c.toNat - 'a'.toNat + 10)
  else if 'A' ≤ c ∧ c ≤ 'F' then some (c.toNat - 'A'.toNat + 10)
  else none

/-- The code unit that four hexadecimal digits name. -/
def codeUnit? (a b c d : Char) : Option Nat := do
  let a ← hexValue? a
  let b ← hexValue? b
  let c ← hexValue? c
  let d ← hexValue? d
  return a * 4096 + b * 256 + c * 16 + d

/-- The character that a letter after a backslash stands for. -/
def escaped? (c : Char) : Option Char :=
  match c with
  | '"' => some '"'
  | '\\' => some '\\'
  | '/' => some '/'
  | 'b' => some '\x08'
  | 'f' => some '\x0c'
  | 'n' => some '\n'
  | 'r' => some '\x0d'
  | 't' => some '\t'
  | _ => none

/-- The code units of a string literal whose opening quote has been read, and what follows the
closing one.  `done` holds the units read so far, the last one first. -/
def units? (done : List Nat) : List Char → Option (List Nat × List Char)
  | [] => none
  | c :: rest =>
    if c = '"' then some (done.reverse, rest)
    else if c = '\\' then
      match rest with
      | 'u' :: a :: b :: c :: d :: rest =>
        match codeUnit? a b c d with
        | some u => units? (u :: done) rest
        | none => none
      | e :: rest =>
        match escaped? e with
        | some c => units? (c.toNat :: done) rest
        | none => none
      | [] => none
    else if c.toNat < 32 then none
    else units? (c.toNat :: done) rest

def isHighSurrogate (u : Nat) : Bool := 0xd800 ≤ u && u < 0xdc00

def isLowSurrogate (u : Nat) : Bool := 0xdc00 ≤ u && u < 0xe000

/-- Joins surrogate pairs; nothing if a surrogate stands alone. -/
def joinSurrogates (done : List Char) : List Nat → Option (List Char)
  | [] => some done.reverse
  | u :: rest =>
    if isHighSurrogate u then
      match rest with
      | l :: rest =>
        if isLowSurrogate l then
          joinSurrogates (Char.ofNat (0x10000 + (u - 0xd800) * 0x400 + (l - 0xdc00)) :: done) rest
        else none
      | [] => none
    else if isLowSurrogate u then none
    else joinSurrogates (Char.ofNat u :: done) rest

def stringLiteral? (text : List Char) : Option (Text × List Char) :=
  (units? [] text).map fun (units, rest) => ((joinSurrogates [] units).map String.ofList, rest)

/-! ### Number literals -/

/-- A fraction with its point, if one stands here. -/
def fraction? (text : List Char) : Option (List Char × List Char) :=
  match text with
  | '.' :: rest =>
    let digits := rest.takeWhile isDigit
    if digits.isEmpty then none else some (digits, rest.dropWhile isDigit)
  | _ => some ([], text)

/-- The sign of an exponent and what follows it. -/
def exponentSign : List Char → Bool × List Char
  | '+' :: rest => (false, rest)
  | '-' :: rest => (true, rest)
  | rest => (false, rest)

/-- An exponent with its letter, if one stands here. -/
def exponent? (text : List Char) : Option (Option (Bool × List Char) × List Char) :=
  match text with
  | c :: rest =>
    if c = 'e' ∨ c = 'E' then
      let (negative, rest) := exponentSign rest
      let digits := rest.takeWhile isDigit
      if digits.isEmpty then none
      else some (some (negative, digits), rest.dropWhile isDigit)
    else some (none, text)
  | [] => some (none, text)

/-- Whether digits may stand before the point: at least one, and no leading zero. -/
def isWhole : List Char → Bool
  | [] => false
  | [_] => true
  | c :: _ => c ≠ '0'

/-- A number literal without its sign. -/
def magnitude? (negative : Bool) (text : List Char) : Option (Number × List Char) :=
  let whole := text.takeWhile isDigit
  if isWhole whole then do
    let (fraction, rest) ← fraction? (text.dropWhile isDigit)
    let (exponent, rest) ← exponent? rest
    return (⟨negative, whole, fraction, exponent⟩, rest)
  else none

/-! ### Tokens -/

/-- `rest` if the text goes on with `word`. -/
def after? (word text : List Char) : Option (List Char) :=
  match word, text with
  | [], text => some text
  | c :: word, d :: text => if c = d then after? word text else none
  | _ :: _, [] => none

/-- The token that begins with `c`, and the text after it. -/
def token? (c : Char) (rest : List Char) : Option (Token × List Char) :=
  match c with
  | '[' => some (.openArray, rest)
  | ']' => some (.closeArray, rest)
  | '\x7b' => some (.openObject, rest)
  | '\x7d' => some (.closeObject, rest)
  | ',' => some (.comma, rest)
  | ':' => some (.colon, rest)
  | '"' => (stringLiteral? rest).map fun (t, rest) => (.scalar (.string t), rest)
  | 'n' => (after? ['u', 'l', 'l'] rest).map (.scalar .null, ·)
  | 't' => (after? ['r', 'u', 'e'] rest).map (.scalar (.bool true), ·)
  | 'f' => (after? ['a', 'l', 's', 'e'] rest).map (.scalar (.bool false), ·)
  | '-' => (magnitude? true rest).map fun (n, rest) => (.scalar (.number n), rest)
  | c =>
    if isDigit c then
      (magnitude? false (c :: rest)).map fun (n, rest) => (.scalar (.number n), rest)
    else none

theorem units?_length {done : List Nat} {text : List Char} {r : List Nat × List Char}
    (h : units? done text = some r) : r.2.length ≤ text.length := by
  fun_induction units? done text with
  | case1 => simp at h
  | case2 => simp only [Option.some.injEq] at h; subst h; simp
  | case3 _ _ a b c d rest _ _ ih => have := ih h; simp only [List.length_cons]; omega
  | case4 => simp at h
  | case5 _ _ e rest _ _ _ ih => have := ih h; simp only [List.length_cons]; omega
  | case6 => simp at h
  | case7 => simp at h
  | case8 => simp at h
  | case9 _ _ _ _ _ _ ih => have := ih h; simp only [List.length_cons]; omega

theorem length_dropWhile_le (p : Char → Bool) (text : List Char) :
    (text.dropWhile p).length ≤ text.length :=
  (List.dropWhile_suffix p).sublist.length_le

theorem fraction?_length {text : List Char} {r : List Char × List Char}
    (h : fraction? text = some r) : r.2.length ≤ text.length := by
  unfold fraction? at h
  split at h
  · next rest =>
    dsimp only at h
    split at h
    · simp at h
    · simp only [Option.some.injEq] at h
      subst h
      have := length_dropWhile_le isDigit rest
      simp only [List.length_cons]; omega
  · simp only [Option.some.injEq] at h; subst h; simp

theorem exponentSign_length (text : List Char) :
    (exponentSign text).2.length ≤ text.length := by
  unfold exponentSign
  split <;> simp

theorem exponent?_length {text : List Char} {r : Option (Bool × List Char) × List Char}
    (h : exponent? text = some r) : r.2.length ≤ text.length := by
  unfold exponent? at h
  split at h
  · next c rest =>
    split at h
    · dsimp only at h
      split at h
      · simp at h
      · simp only [Option.some.injEq] at h
        subst h
        have h1 := length_dropWhile_le isDigit (exponentSign rest).2
        have h2 := exponentSign_length rest
        simp only [List.length_cons]; omega
    · simp only [Option.some.injEq] at h; subst h; simp
  · simp only [Option.some.injEq] at h; subst h; simp

theorem magnitude?_length {negative : Bool} {text : List Char} {r : Number × List Char}
    (h : magnitude? negative text = some r) : r.2.length ≤ (text.dropWhile isDigit).length := by
  unfold magnitude? at h
  dsimp only at h
  split at h
  · simp only [Option.bind_eq_bind, Option.bind_eq_some_iff, Option.pure_def,
      Option.some.injEq] at h
    obtain ⟨f, hf, e, he, rfl⟩ := h
    have h1 := fraction?_length hf
    have h2 := exponent?_length he
    dsimp only; omega
  · simp at h

theorem after?_length {word text rest : List Char} (h : after? word text = some rest) :
    rest.length ≤ text.length := by
  fun_induction after? word text with
  | case1 => simp only [Option.some.injEq] at h; subst h; simp
  | case2 _ _ _ ih => have := ih h; simp only [List.length_cons]; omega
  | case3 => simp at h
  | case4 => simp at h

/-- A token takes its first character off the text. -/
theorem token?_length {c : Char} {rest : List Char} {r : Token × List Char}
    (h : token? c rest = some r) : r.2.length ≤ rest.length := by
  unfold token? at h
  split at h
  iterate 6 simp only [Option.some.injEq] at h; subst h; simp
  · obtain ⟨t, ht, rfl⟩ := Option.map_eq_some_iff.1 h
    obtain ⟨u, hu, rfl⟩ := Option.map_eq_some_iff.1 ht
    exact units?_length hu
  iterate 3 obtain ⟨t, ht, rfl⟩ := Option.map_eq_some_iff.1 h; exact after?_length ht
  · obtain ⟨n, hn, rfl⟩ := Option.map_eq_some_iff.1 h
    have h1 := magnitude?_length hn
    have h2 := length_dropWhile_le isDigit rest
    dsimp only; omega
  · next c _ _ _ _ _ _ _ _ _ _ _ =>
    split at h
    · next hd =>
      obtain ⟨n, hn, rfl⟩ := Option.map_eq_some_iff.1 h
      have h1 := magnitude?_length hn
      rw [List.dropWhile_cons_of_pos hd] at h1
      have h2 := length_dropWhile_le isDigit rest
      dsimp only; omega
    · simp at h

/-! ### The machine -/

/-- A container whose end has not been read, with its finished parts, the last one first. -/
inductive Frame where
  | array (items : List Value)
  | object (members : List (Text × Value))
  /-- An object in which the value of `key` comes next. -/
  | member (members : List (Text × Value)) (key : Text)

/-- What the next token may be, and the containers around it, the innermost first. -/
inductive State where
  | value (stack : List Frame)
  /-- After `[`: an item or the end. -/
  | firstItem (stack : List Frame)
  /-- After the brace that opens an object: a key or the end. -/
  | firstKey (stack : List Frame)
  | key (members : List (Text × Value)) (stack : List Frame)
  | colon (stack : List Frame)
  /-- After a value in a container: a comma or the end. -/
  | separator (stack : List Frame)
  | done (v : Value)

namespace State

/-- Hands a finished value to the container it stands in. -/
def deliver? (v : Value) : List Frame → Option State
  | [] => some (done v)
  | .array items :: stack => some (separator (.array (v :: items) :: stack))
  | .member members k :: stack => some (separator (.object ((k, v) :: members) :: stack))
  | .object _ :: _ => none

/-- A token at a place where a value may begin. -/
def begin? (stack : List Frame) : Token → Option State
  | .openArray => some (firstItem stack)
  | .openObject => some (firstKey stack)
  | .scalar v => deliver? v stack
  | _ => none

def step? : State → Token → Option State
  | value stack, t => begin? stack t
  | firstItem stack, .closeArray => deliver? (.array []) stack
  | firstItem stack, t => begin? (.array [] :: stack) t
  | firstKey stack, .closeObject => deliver? (.object []) stack
  | firstKey stack, .scalar (.string k) => some (colon (.member [] k :: stack))
  | key members stack, .scalar (.string k) => some (colon (.member members k :: stack))
  | colon stack, .colon => some (value stack)
  | separator (.array items :: stack), .comma => some (value (.array items :: stack))
  | separator (.array items :: stack), .closeArray => deliver? (.array items.reverse) stack
  | separator (.object members :: stack), .comma => some (key members stack)
  | separator (.object members :: stack), .closeObject =>
      deliver? (.object members.reverse) stack
  | _, _ => none

end State

def isBlank (c : Char) : Bool := c = ' ' || c = '\t' || c = '\n' || c = '\x0d'

/-- Runs the machine over the rest of a text. -/
def run? (st : State) (text : List Char) : Option Value :=
  match text with
  | [] =>
    match st with
    | .done v => some v
    | _ => none
  | c :: rest =>
    if isBlank c then run? st rest
    else
      match _h : token? c rest with
      | none => none
      | some (t, rest') =>
        match st.step? t with
        | none => none
        | some st' => run? st' rest'
termination_by text.length
decreasing_by
  · simp
  · have := token?_length _h; simp only [List.length_cons] at *; omega

/-- The value that a whole text says. -/
def Value.read? (text : String) : Option Value := run? (.value []) text.toList

end CallTrace.Json
