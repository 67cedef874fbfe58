import CallTrace.Digest.Sha256
import CallTrace.Digest.Sha3
import CallTrace.Error
import CallTrace.Span
import CallTrace.Text.Blank

/-! # Operation signatures

The hash of an operation identifies it by where it runs and what it is called.  The separators
between the parts of an operation name are made equal first (`normalized`), the name is joined to
the landscape, the host and the instance by the same delimiter (`signedText`), and the bytes of
that are digested.  So a name hashes alike however its parts are separated. -/

namespace CallTrace

namespace Digest

inductive Algorithm where
  | sha3
  | sha2
deriving DecidableEq, Repr

namespace Algorithm

/-- The name an algorithm is shown by. -/
def name : Algorithm → String
  | sha3 => "SHA3-256"
  | sha2 => "SHA-256"

/-- The algorithm of a name, whatever the case of its ASCII letters and the white space around
it. -/
def ofName (name : String) : Except ConfigError Algorithm :=
  let upper := String.ofList ((Text.trim name).toList.map Char.toUpper)
  if upper = "SHA3-256" ∨ upper = "SHA3_256" then .ok sha3
  else if upper = "SHA-256" ∨ upper = "SHA256" then .ok sha2
  else .error (.unsupportedDigest name)

end Algorithm

/-- Two lower-case hexadecimal digits for each byte. -/
def hex (bytes : List UInt8) : String :=
  String.ofList (bytes.flatMap fun b =>
    [Nat.digitChar (b.toNat / 16), Nat.digitChar (b.toNat % 16)])

/-- The digest of a text in hexadecimal. -/
def ofText (a : Algorithm) (text : String) : String :=
  let bytes := text.toUTF8.data
  hex (match a with
    | .sha3 => Sha3.digest bytes
    | .sha2 => Sha256.digest bytes)

end Digest

namespace Signature

/-- Replaces every two colons in a row, from the left. -/
def joinColons : List Char → List Char
  | ':' :: ':' :: rest => ';' :: joinColons rest
  | c :: rest => c :: joinColons rest
  | [] => []

/-- An operation name with a semicolon for each separator. -/
def normalized (operation : String) : String :=
  String.ofList ((joinColons operation.toList).map fun c => if c = '.' ∨ c = '#' then ';' else c)

/-- The text that is signed. -/
def signedText (landscapeToken host instanceId operation : String) : String :=
  landscapeToken ++ ";" ++ host ++ ";" ++ instanceId ++ ";" ++ normalized operation

def sign (a : Digest.Algorithm) (landscapeToken host instanceId operation : String) : String :=
  Digest.ofText a (signedText landscapeToken host instanceId operation)

end Signature

namespace Span

/-- The signature of the operation of a span. -/
def signature (a : Digest.Algorithm) (s : Span) : String :=
  Signature.sign a s.landscapeToken s.hostAddress s.instanceId s.operationName

/-- Gives a span its operation hash, unless it has one. -/
def signed (a : Digest.Algorithm) (s : Span) : Span :=
  if s.operationHash.isEmpty then { s with operationHash := s.signature a } else s

/-- A hash that was given is kept, a missing one is signed from where the operation runs and what it is
called, and nothing else changes. -/
theorem signed_eq (a : Digest.Algorithm) (s : Span) : s.signed a = { s with
    operationHash := if s.operationHash = "" then
        Signature.sign a s.landscapeToken s.hostAddress s.instanceId s.operationName
      else s.operationHash } := by
  unfold signed signature
  by_cases h : s.operationHash = ""
  · rw [if_pos h, if_pos (String.isEmpty_iff.mpr h)]
  · rw [if_neg h, if_neg (mt String.isEmpty_iff.mp h)]

theorem startTime_signed (a : Digest.Algorithm) (s : Span) : (s.signed a).startTime = s.startTime := by
  rw [signed_eq]

end Span
end CallTrace
