import CallTrace.Span
import CallTrace.Json.Field
import CallTrace.Json.Reader
import CallTrace.Json.Writer

/-! # Span records

The JSON form of a span.  It is written as an object with all ten fields in the order of
`fieldNames`.  It is read from an object, in which unknown names are ignored and all but the five
identifying fields may be missing, or from an array of the fields in that order, which may end
once only fields with a default are left. -/

namespace CallTrace.Span
open Json

/-- The names of the fields, in the order in which they are written. -/
def fieldNames : List String :=
  ["landscapeToken", "traceId", "spanId", "parentSpanId", "startTime", "endTime",
    "operationHash", "hostIpAddress", "appInstanceId", "fullyQualifiedOperationName"]

def toValue (s : Span) : Value :=
  .object (fieldNames.map some |>.zip
    [.ofString s.landscapeToken, .ofString s.traceId, .ofString s.spanId,
      .ofString s.parentSpanId, .ofInt s.startTime.toInt, .ofInt s.endTime.toInt,
      .ofString s.operationHash, .ofString s.hostAddress, .ofString s.instanceId,
      .ofString s.operationName])

def ofMembers? (members : List (String × Value)) : Option Span := do
  let landscapeToken ← required? "landscapeToken" Value.text? members
  let traceId ← required? "traceId" Value.text? members
  let spanId ← required? "spanId" Value.text? members
  let parentSpanId ← optional? "parentSpanId" Value.text? "" members
  let startTime ← required? "startTime" Value.int64? members
  let endTime ← required? "endTime" Value.int64? members
  let operationHash ← optional? "operationHash" Value.text? "" members
  let hostAddress ← optional? "hostIpAddress" Value.text? "" members
  let instanceId ← optional? "appInstanceId" Value.text? "" members
  let operationName ← optional? "fullyQualifiedOperationName" Value.text? "" members
  return { landscapeToken, traceId, spanId, parentSpanId, startTime, endTime, operationHash,
           hostAddress, instanceId, operationName }

def ofItems? : List Value → Option Span
  | landscapeToken :: traceId :: spanId :: parentSpanId :: startTime :: endTime :: others => do
    let landscapeToken ← landscapeToken.text?
    let traceId ← traceId.text?
    let spanId ← spanId.text?
    let parentSpanId ← parentSpanId.text?
    let startTime ← startTime.int64?
    let endTime ← endTime.int64?
    let operationHash ← element? 0 Value.text? "" others
    let hostAddress ← element? 1 Value.text? "" others
    let instanceId ← element? 2 Value.text? "" others
    let operationName ← element? 3 Value.text? "" others
    if others.length ≤ 4 then
      return { landscapeToken, traceId, spanId, parentSpanId, startTime, endTime, operationHash,
               hostAddress, instanceId, operationName }
    else none
  | _ => none

def ofValue? : Value → Option Span
  | .object members => (named? members).bind ofMembers?
  | .array items => ofItems? items
  | _ => none

/-- The canonical text of a span. -/
def render (s : Span) : List Char := s.toValue.render

/-- Reads a span from its text. -/
def read? (text : String) : Option Span := (Value.read? text).bind ofValue?

end CallTrace.Span
