import CallTrace.Record.Span
import CallTrace.Record.TokenEvent

/-! # Ingress records

What a line of an ingress stream says: an object with the single member `span` or `tokenEvent`. -/

namespace CallTrace

inductive Record where
  | span (s : Span)
  | tokenEvent (e : TokenEvent)
deriving DecidableEq, Repr

namespace Record
open Json

def toValue : Record → Value
  | span s => .object [(some "span", s.toValue)]
  | tokenEvent e => .object [(some "tokenEvent", e.toValue)]

/-- The object of the record takes one of the containers that an event may nest. -/
def ofValue? : Value → Option Record
  | .object [(some name, v)] =>
    if name = "span" then (Span.ofValue? v).map span
    else if name = "tokenEvent" then
      (TokenEvent.ofValue? (TokenEvent.maxDepth - 1) v).map tokenEvent
    else none
  | _ => none

/-- The canonical text of a record. -/
def render (r : Record) : List Char := r.toValue.render

/-- Reads a record from a line. -/
def read? (line : String) : Option Record := (Value.read? line).bind ofValue?

end Record
end CallTrace
