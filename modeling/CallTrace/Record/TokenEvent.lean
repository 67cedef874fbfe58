import CallTrace.TokenEvent
import CallTrace.Json.Extent
import CallTrace.Json.Field
import CallTrace.Json.Reader
import CallTrace.Json.Writer

/-! # Event records

The JSON form of a landscape event: an object whose `type` says which of the other fields belong
to it, or an array of these in order.  Because the type may come last, the other members are kept
until it is known, so they have to be values of bounded extent. -/

namespace CallTrace.TokenEvent
open Json

def toValue : TokenEvent → Value
  | created token => .object [(some "type", .ofString "created"), (some "token", .ofString token)]
  | deleted token => .object [(some "type", .ofString "deleted"), (some "token", .ofString token)]
  | cloned token clonedToken =>
      .object [(some "type", .ofString "cloned"), (some "token", .ofString token),
        (some "clonedToken", .ofString clonedToken)]

inductive Kind where
  | created
  | deleted
  | cloned

def kind? (v : Value) : Option Kind :=
  v.text?.bind fun name =>
    if name = "created" then some .created
    else if name = "deleted" then some .deleted
    else if name = "cloned" then some .cloned
    else none

def ofMembers? (members : List (String × Value)) : Option TokenEvent := do
  let kind ← required? "type" kind? members
  let token ← required? "token" Value.text? members
  match kind with
  | .created => return created token
  | .deleted => return deleted token
  | .cloned => return cloned token (← required? "clonedToken" Value.text? members)

def ofItems? : List Value → Option TokenEvent
  | [kind, token] => do
    match ← kind? kind with
    | .created => return created (← token.text?)
    | .deleted => return deleted (← token.text?)
    | .cloned => none
  | [kind, token, clonedToken] => do
    match ← kind? kind with
    | .cloned => return cloned (← token.text?) (← clonedToken.text?)
    | _ => none
  | _ => none

/-- Reads an event that may nest `depth` containers, its own one included. -/
def ofValue? (depth : Nat) (v : Value) : Option TokenEvent :=
  if v.nestsWithin depth then
    match v with
    | .object members => (named? members).bind ofMembers?
    | .array items => ofItems? items
    | _ => none
  else none

/-- How many containers a text may nest. -/
def maxDepth : Nat := 127

/-- The canonical text of an event. -/
def render (e : TokenEvent) : List Char := e.toValue.render

/-- Reads an event from its text. -/
def read? (text : String) : Option TokenEvent := (Value.read? text).bind (ofValue? maxDepth)

end CallTrace.TokenEvent
