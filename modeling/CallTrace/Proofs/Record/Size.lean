import CallTrace.Record.Trace

/-! # The size of a record

The record of a trace is as long as its header and its spans, each with a comma
(`Trace.recordSize_eq`).  Of the header only the token, the trace id and some numbers vary: the
token and the id take as many bytes as the key says (`textSize_windowKey`), and a timestamp takes
one to twenty (`intSize_toInt_pos`, `intSize_toInt_le`). -/

namespace CallTrace
namespace Json

theorem foldl_utf8Size (text : List Char) (n : Nat) :
    text.foldl (fun n c => n + c.utf8Size) n = n + byteLength text := by
  unfold byteLength
  induction text generalizing n with
  | nil => rfl
  | cons c text ih =>
    rw [List.foldl_cons, List.foldl_cons, ih, ih (0 + c.utf8Size)]
    omega

@[simp] theorem byteLength_nil : byteLength [] = 0 := rfl

@[simp] theorem byteLength_cons (c : Char) (text : List Char) :
    byteLength (c :: text) = c.utf8Size + byteLength text := by
  rw [byteLength, List.foldl_cons, foldl_utf8Size, Nat.zero_add]

@[simp] theorem byteLength_append (a b : List Char) :
    byteLength (a ++ b) = byteLength a + byteLength b := by
  rw [byteLength, List.foldl_append, foldl_utf8Size, foldl_utf8Size, Nat.zero_add]

/-! ### Texts and numbers -/

/-- The bytes of a text between its quotes. -/
def textSize (s : String) : Nat := byteLength (s.toList.flatMap escapeChar)

/-- The bytes of an integer. -/
def intSize (i : Int) : Nat := byteLength (Value.ofInt i).render

theorem byteLength_quote (s : String) : byteLength (quote s) = textSize s + 2 := by
  have : '"'.utf8Size = 1 := by decide
  simp only [quote, textSize, byteLength_cons, byteLength_append, byteLength_nil, this]
  omega

theorem textSize_append (s t : String) : textSize (s ++ t) = textSize s + textSize t := by
  simp [textSize]

/-- A key takes as many bytes as the token and the id, and two more. -/
theorem textSize_windowKey (token id : String) :
    textSize (windowKey token id) = textSize token + textSize id + 2 := by
  have : textSize "::" = 2 := by decide
  rw [windowKey, textSize_append, textSize_append, this]
  omega

theorem byteLength_of_isDigit {text : List Char} (h : ∀ c ∈ text, c.isDigit) :
    byteLength text = text.length := by
  induction text with
  | nil => rfl
  | cons c text ih =>
    have hc : c.utf8Size = 1 := by
      have hdigit := Char.isDigit_iff_toNat.mp (h c List.mem_cons_self)
      rw [Char.utf8Size_eq_one_iff, UInt32.le_iff_toNat_le]
      exact Nat.le_trans hdigit.2 (by decide)
    rw [byteLength_cons, ih fun d hd => h d (.tail _ hd), hc, List.length_cons]
    omega

theorem intSize_eq (i : Int) :
    intSize i = (if i < 0 then 1 else 0) + (Nat.toDigits 10 i.natAbs).length := by
  have hdigits : byteLength (Nat.toDigits 10 i.natAbs) = (Nat.toDigits 10 i.natAbs).length :=
    byteLength_of_isDigit fun c hc => Nat.isDigit_of_mem_toDigits (by omega) (by omega) hc
  have hminus : '-'.utf8Size = 1 := by decide
  by_cases hneg : i < 0 <;>
    simp [intSize, Value.ofInt, Value.render, Number.render, Number.ofInt, hneg, hdigits, hminus]

theorem intSize_toInt_pos (t : Timestamp) : 1 ≤ intSize t.toInt := by
  have : 0 < (Nat.toDigits 10 t.toInt.natAbs).length := Nat.length_toDigits_pos
  rw [intSize_eq]
  omega

theorem length_toDigits_toInt_le (t : Timestamp) :
    (Nat.toDigits 10 t.toInt.natAbs).length ≤ 19 := by
  have := t.toInt_lt
  have := t.le_toInt
  exact (Nat.length_toDigits_le_iff (by omega) (by omega)).mpr (by omega)

theorem intSize_toInt_le (t : Timestamp) : intSize t.toInt ≤ 20 := by
  have := length_toDigits_toInt_le t
  rw [intSize_eq]
  split <;> omega

/-- A time that is lowered keeps its minus sign, so it gets shorter by eighteen bytes at most. -/
theorem intSize_toInt_le_of_le {t u : Timestamp} (h : u ≤ t) :
    intSize t.toInt ≤ intSize u.toInt + 18 := by
  have hmany := length_toDigits_toInt_le t
  have hsome : 0 < (Nat.toDigits 10 u.toInt.natAbs).length := Nat.length_toDigits_pos
  rw [Int64.le_iff_toInt_le] at h
  rw [intSize_eq, intSize_eq]
  split <;> split <;> omega

theorem byteLength_ofInt (i : Int) : byteLength (Value.ofInt i).render = intSize i := rfl

theorem byteLength_ofString (s : String) :
    byteLength (Value.ofString s).render = textSize s + 2 := by
  rw [Value.ofString, Value.render, Text.render, byteLength_quote]

/-! ### Arrays and objects -/

/-- The bytes of some values, each with a comma after it. -/
def itemsSize : List Value → Nat
  | [] => 0
  | v :: vs => byteLength v.render + 1 + itemsSize vs

/-- The bytes of some members, each with a colon in it and a comma after it. -/
def membersSize : List (String × Value) → Nat
  | [] => 0
  | (k, v) :: ms => textSize k + 2 + 1 + byteLength v.render + 1 + membersSize ms

theorem utf8Size_punctuation : ','.utf8Size = 1 ∧ ':'.utf8Size = 1 ∧ '['.utf8Size = 1 ∧
    ']'.utf8Size = 1 ∧ '\x7b'.utf8Size = 1 ∧ '\x7d'.utf8Size = 1 := by decide

theorem byteLength_renderItems {vs : List Value} (hne : vs ≠ []) :
    byteLength (renderItems vs) + 1 = itemsSize vs := by
  induction vs with
  | nil => exact absurd rfl hne
  | cons v vs ih =>
    cases vs with
    | nil => rfl
    | cons w vs =>
      have := ih (by simp)
      rw [renderItems, byteLength_append, byteLength_cons, utf8Size_punctuation.1, itemsSize,
        ← this]
      · omega
      · simp

theorem byteLength_array {vs : List Value} (hne : vs ≠ []) :
    byteLength (Value.array vs).render = itemsSize vs + 1 := by
  obtain ⟨-, -, hopen, hclose, -⟩ := utf8Size_punctuation
  rw [Value.render, byteLength_cons, byteLength_append, byteLength_cons, byteLength_nil,
    ← byteLength_renderItems hne, hopen, hclose]
  omega

theorem byteLength_renderMembers {ms : List (String × Value)} (hne : ms ≠ []) :
    byteLength (renderMembers (ms.map (Prod.map some id))) + 1 = membersSize ms := by
  obtain ⟨hcomma, hcolon, -⟩ := utf8Size_punctuation
  induction ms with
  | nil => exact absurd rfl hne
  | cons m ms ih =>
    obtain ⟨k, v⟩ := m
    cases ms with
    | nil =>
      rw [List.map_cons, List.map_nil, Prod.map, renderMembers, byteLength_append, byteLength_cons,
        Text.render, byteLength_quote, hcolon, membersSize, membersSize, id]
      omega
    | cons n ms =>
      have := ih (by simp)
      rw [List.map_cons] at this
      rw [List.map_cons, Prod.map, List.map_cons, renderMembers, byteLength_append,
        byteLength_cons, byteLength_append, byteLength_cons, Text.render, byteLength_quote, hcolon,
        hcomma, membersSize, ← this, id]
      · omega
      · simp

/-- The bytes of a record with these field names. -/
theorem byteLength_object {names : List String} {vs : List Value} (hne : names.zip vs ≠ []) :
    byteLength (Value.object ((names.map some).zip vs)).render
      = membersSize (names.zip vs) + 1 := by
  obtain ⟨-, -, -, -, hopen, hclose⟩ := utf8Size_punctuation
  rw [List.zip_map_left, Value.render, byteLength_cons, byteLength_append, byteLength_cons,
    byteLength_nil, ← byteLength_renderMembers hne, hopen, hclose]
  omega

end Json

open Json

/-! ### Spans -/

namespace Span

theorem recordSize_eq (s : Span) :
    s.recordSize = 178 + textSize s.landscapeToken + textSize s.traceId + textSize s.spanId
      + textSize s.parentSpanId + intSize s.startTime.toInt + intSize s.endTime.toInt
      + textSize s.operationHash + textSize s.hostAddress + textSize s.instanceId
      + textSize s.operationName := by
  have names : fieldNames.map textSize = [14, 7, 6, 12, 9, 7, 13, 13, 13, 27] := by decide
  simp only [fieldNames, List.map_cons, List.map_nil, List.cons.injEq, and_true] at names
  rw [recordSize, render, toValue, byteLength_object (by simp [fieldNames])]
  simp only [fieldNames, List.zip_cons_cons, List.zip_nil_right, membersSize, byteLength_ofString,
    byteLength_ofInt, names]
  omega

/-- Even a span that says nothing takes that many bytes. -/
theorem le_recordSize (s : Span) : 180 ≤ s.recordSize := by
  have := intSize_toInt_pos s.startTime
  have := intSize_toInt_pos s.endTime
  rw [recordSize_eq]
  omega

/-- The bytes of some spans, each with a comma after it. -/
def listSize : List Span → Nat
  | [] => 0
  | s :: spans => s.recordSize + 1 + listSize spans

theorem itemsSize_map_toValue (spans : List Span) :
    itemsSize (spans.map toValue) = listSize spans := by
  induction spans with
  | nil => rfl
  | cons s spans ih =>
    rw [List.map_cons, itemsSize, ih]
    rfl

theorem listSize_append (l l' : List Span) : listSize (l ++ l') = listSize l + listSize l' := by
  induction l with
  | nil => exact (Nat.zero_add _).symm
  | cons s l ih =>
    rw [List.cons_append, listSize, listSize, ih]
    omega

theorem listSize_perm {l l' : List Span} (h : l.Perm l') : listSize l = listSize l' := by
  induction h with
  | nil => rfl
  | cons s _ ih => rw [listSize, listSize, ih]
  | swap s s' l => simp only [listSize]; omega
  | trans _ _ ih ih' => exact ih.trans ih'

/-- Every span left out makes a list smaller by what a span takes at least. -/
theorem listSize_sublist {l l' : List Span} (h : l.Sublist l') :
    listSize l + 181 * (l'.length - l.length) ≤ listSize l' := by
  induction h with
  | slnil => simp [listSize]
  | @cons l l' s h ih =>
    have := s.le_recordSize
    have := h.length_le
    rw [listSize, List.length_cons]
    omega
  | @cons_cons l l' s h ih =>
    rw [listSize, listSize, List.length_cons, List.length_cons]
    omega

end Span

/-! ### Traces -/

namespace Trace

theorem recordSize_eq {t : Trace} (hne : t.spans ≠ []) :
    t.recordSize = 120 + textSize t.landscapeToken + textSize t.traceId
      + intSize t.startTime.toInt + intSize t.endTime.toInt + intSize t.duration.toInt
      + Span.listSize t.spans
      + intSize t.overallRequestCount.toInt + intSize t.traceCount.toInt := by
  have names : fieldNames.map textSize = [14, 7, 9, 7, 8, 8, 19, 10] := by decide
  simp only [fieldNames, List.map_cons, List.map_nil, List.cons.injEq, and_true] at names
  rw [recordSize, render, toValue, byteLength_object (by simp [fieldNames])]
  simp only [fieldNames, List.zip_cons_cons, List.zip_nil_right, membersSize, byteLength_ofString,
    byteLength_ofInt, byteLength_array (mt List.map_eq_nil_iff.mp hne),
    Span.itemsSize_map_toValue, names]
  omega

end Trace
end CallTrace
