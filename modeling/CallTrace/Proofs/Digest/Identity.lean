import CallTrace.Digest.Signature
import Mathlib.Logic.Function.Basic

/-! # What a signature identifies

An operation is told by where it runs and by its identifiers, from the outermost inwards
(`Signature.Identity`).  Its name may separate them in several ways, and not everywhere alike
(`Signature.joined`).

Whatever the separators are, the text that is signed is the row of all parts with a semicolon between
any two (`Signature.signedText_eq`).  No part has a semicolon of its own, so the parts can be split off
again and different operations have different texts.  The digits of a digest tell its bytes
(`Digest.hex_injective`); so two signatures agree for the same operation, and besides that only where
the digest maps two different texts alike (`Signature.sign_eq_iff`). -/

namespace CallTrace

/-! ### Digests -/

namespace Digest

/-- The digest of a message. -/
def Algorithm.digest : Algorithm → Array UInt8 → List UInt8
  | sha3 => Sha3.digest
  | sha2 => Sha256.digest

/-- Two different messages with one digest. -/
def Algorithm.Collision (a : Algorithm) (m m' : Array UInt8) : Prop :=
  m ≠ m' ∧ a.digest m = a.digest m'

theorem ofText_eq (a : Algorithm) (text : String) :
    ofText a text = hex (a.digest text.toUTF8.data) := by
  cases a <;> rfl

theorem digitChar_injOn {m n : Nat} (hm : m < 16) (hn : n < 16)
    (h : Nat.digitChar m = Nat.digitChar n) : m = n := by
  have hall : ∀ m < 16, ∀ n < 16, Nat.digitChar m = Nat.digitChar n → m = n := by decide
  exact hall m hm n hn h

/-- The digits of bytes tell the bytes. -/
theorem hex_injective : Function.Injective hex := by
  intro l l' h
  replace h := String.ofList_inj.mp h
  -- every byte has two digits, so the rows of digits split at the same places
  induction l generalizing l' with
  | nil =>
    cases l' with
    | nil => rfl
    | cons b l' => simp at h
  | cons b l ih =>
    cases l' with
    | nil => simp at h
    | cons b' l' =>
      simp only [List.flatMap_cons, List.cons_append, List.nil_append, List.cons.injEq] at h
      obtain ⟨hupper, hlower, hrest⟩ := h
      have hb := b.toNat_lt
      have hb' := b'.toNat_lt
      have hupper := digitChar_injOn (by omega) (by omega) hupper
      have hlower := digitChar_injOn (by omega) (by omega) hlower
      have hbyte : b = b' := UInt8.toNat_inj.mp (by omega)
      rw [hbyte, ih hrest]

end Digest

namespace Signature

/-! ### Operations and their names -/

/-- What an operation is told by. -/
structure Identity where
  landscapeToken : String
  host : String
  instanceId : String
  /-- The identifiers of packages, classes and the method, from the outermost inwards. -/
  identifiers : List String
  landscapeToken_plain : ';' ∉ landscapeToken.toList
  host_plain : ';' ∉ host.toList
  instanceId_plain : ';' ∉ instanceId.toList
  identifiers_ne : identifiers ≠ []
  identifiers_plain : ∀ s ∈ identifiers, ∀ c ∈ s.toList, c ∉ [':', '.', '#', ';']

inductive Separator where
  | colons
  | dot
  | hash
  | semicolon
deriving DecidableEq, Repr

def Separator.text : Separator → List Char
  | colons => [':', ':']
  | dot => ['.']
  | hash => ['#']
  | semicolon => [';']

/-- Identifiers in a row, with the separator `gap i` after the one at `i`. -/
def joined (gap : Nat → Separator) : List String → List Char
  | [] => []
  | [s] => s.toList
  | s :: rest => s.toList ++ ((gap 0).text ++ joined (fun i => gap (i + 1)) rest)

namespace Identity
variable (x : Identity)

/-- A name of the operation. -/
def operation (gap : Nat → Separator) : String := String.ofList (joined gap x.identifiers)

/-- All that the operation is told by, one after the other. -/
def parts : List (List Char) :=
  (x.landscapeToken :: x.host :: x.instanceId :: x.identifiers).map String.toList

theorem parts_ne : x.parts ≠ [] := by simp [parts]

theorem parts_plain : ∀ part ∈ x.parts, ';' ∉ part := by
  intro part hpart
  obtain ⟨s, hs, rfl⟩ := List.mem_map.mp hpart
  rcases List.mem_cons.mp hs with rfl | hs
  · exact x.landscapeToken_plain
  rcases List.mem_cons.mp hs with rfl | hs
  · exact x.host_plain
  rcases List.mem_cons.mp hs with rfl | hs
  · exact x.instanceId_plain
  · exact fun hc => x.identifiers_plain s hs ';' hc (by simp)

theorem eq_of_parts {x y : Identity} (h : x.parts = y.parts) : x = y := by
  have hparts := (List.map_inj_right fun _ _ => String.toList_inj.mp).mp h
  simp only [List.cons.injEq] at hparts
  cases x
  cases y
  simpa using hparts

end Identity

/-! ### The text that is signed -/

theorem joinColons_append {l : List Char} (h : ':' ∉ l) (rest : List Char) :
    joinColons (l ++ rest) = l ++ joinColons rest := by
  induction l with
  | nil => rfl
  | cons c l ih =>
    simp only [List.mem_cons, not_or] at h
    rw [List.cons_append, List.cons_append, ← ih h.2, joinColons]
    rintro _ rfl
    exact absurd rfl h.1

/-- Equal separators for the parts of an operation name. -/
def leveled (text : List Char) : List Char :=
  (joinColons text).map fun c => if c = '.' ∨ c = '#' then ';' else c

theorem leveled_append {l : List Char} (h : ∀ c ∈ l, c ∉ [':', '.', '#', ';']) (rest : List Char) :
    leveled (l ++ rest) = l ++ leveled rest := by
  have hplain : l.map (fun c => if c = '.' ∨ c = '#' then ';' else c) = l := by
    refine (List.map_congr_left fun c hc => ?_).trans l.map_id
    have := h c hc
    simp only [List.mem_cons, not_or] at this
    simp [this]
  rw [leveled, joinColons_append fun hc => h ':' hc (by simp), List.map_append, hplain]
  rfl

/-- Whatever the separator is, it becomes a semicolon. -/
theorem leveled_separator (sep : Separator) (rest : List Char) :
    leveled (sep.text ++ rest) = ';' :: leveled rest := by
  cases sep <;> simp [leveled, joinColons, Separator.text]

theorem leveled_joined {identifiers : List String}
    (h : ∀ s ∈ identifiers, ∀ c ∈ s.toList, c ∉ [':', '.', '#', ';']) (gap : Nat → Separator) :
    leveled (joined gap identifiers) = [';'].intercalate (identifiers.map String.toList) := by
  induction identifiers generalizing gap with
  | nil => rfl
  | cons s identifiers ih =>
    have hs := leveled_append (h s List.mem_cons_self)
    have hrest := ih fun t ht => h t (.tail _ ht)
    cases identifiers with
    | nil => simpa [joined, leveled, joinColons] using hs []
    | cons t identifiers =>
      rw [joined, hs, leveled_separator, hrest]
      · simp [List.intercalate]
      · simp

/-- The text that is signed is the row of all parts, whatever the separators are. -/
theorem signedText_eq (x : Identity) (gap : Nat → Separator) :
    signedText x.landscapeToken x.host x.instanceId (x.operation gap)
      = String.ofList ([';'].intercalate x.parts) := by
  have hnormalized : normalized (x.operation gap)
      = String.ofList ([';'].intercalate (x.identifiers.map String.toList)) := by
    rw [← leveled_joined x.identifiers_plain gap, normalized, Identity.operation,
      String.toList_ofList]
    rfl
  obtain ⟨s, identifiers, hs⟩ := List.exists_cons_of_ne_nil x.identifiers_ne
  apply String.toList_injective
  simp [signedText, hnormalized, Identity.parts, hs, List.intercalate]

example : normalized "net::explorviz.Service#handle" = "net;explorviz;Service;handle" := by decide

/-- No two operations have one text. -/
theorem signedText_inj {x y : Identity} (gap gap' : Nat → Separator) :
    signedText x.landscapeToken x.host x.instanceId (x.operation gap)
      = signedText y.landscapeToken y.host y.instanceId (y.operation gap') ↔ x = y := by
  rw [signedText_eq, signedText_eq, String.ofList_inj]
  constructor
  · intro h
    have hsplit := congrArg (List.splitOn ';') h
    rw [List.splitOn_intercalate _ x.parts_plain x.parts_ne,
      List.splitOn_intercalate _ y.parts_plain y.parts_ne] at hsplit
    exact Identity.eq_of_parts hsplit
  · exact fun h => congrArg (fun x : Identity => [';'].intercalate x.parts) h

/-- The bytes that are signed of two operations are the same if and only if the operations are,
however their identifiers are separated.  So are their signatures, unless the digest maps different
bytes alike. -/
theorem sign_eq_iff (a : Digest.Algorithm) (x y : Identity) (gap gap' : Nat → Separator) :
    let bytes (x : Identity) (gap : Nat → Separator) :=
      (signedText x.landscapeToken x.host x.instanceId (x.operation gap)).toUTF8.data
    (bytes x gap = bytes y gap' ↔ x = y) ∧
      (sign a x.landscapeToken x.host x.instanceId (x.operation gap)
        = sign a y.landscapeToken y.host y.instanceId (y.operation gap')
          ↔ x = y ∨ a.Collision (bytes x gap) (bytes y gap')) := by
  intro bytes
  have hbytes : bytes x gap = bytes y gap' ↔ x = y := by
    rw [← signedText_inj gap gap', ← ByteArray.ext_iff, String.toUTF8, String.toUTF8,
      String.toByteArray_inj]
  have hsign : ∀ z gap, sign a z.landscapeToken z.host z.instanceId (z.operation gap)
      = Digest.hex (a.digest (bytes z gap)) := fun _ _ => Digest.ofText_eq ..
  refine ⟨hbytes, ?_⟩
  rw [hsign, hsign, Digest.hex_injective.eq_iff, Digest.Algorithm.Collision, ne_eq, hbytes]
  constructor
  · intro h
    by_cases hxy : x = y
    · exact .inl hxy
    · exact .inr ⟨hxy, h⟩
  · rintro (hxy | ⟨-, h⟩)
    · rw [hbytes.mpr hxy]
    · exact h

end Signature
end CallTrace
