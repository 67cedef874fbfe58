import CallTrace.Trace
import CallTrace.Record.Span

/-! # Trace records

The JSON form of a trace: an object with all eight fields, every one of them required, or an array
of exactly these in their order.  `Trace.recordSize` is the length of the canonical text in bytes,
which is what record limits are about. -/

namespace CallTrace.Trace
open Json

/-- The names of the fields, in the order in which they are written. -/
def fieldNames : List String :=
  ["landscapeToken", "traceId", "startTime", "endTime", "duration", "spanList",
    "overallRequestCount", "traceCount"]

def toValue (t : Trace) : Value :=
  .object (fieldNames.map some |>.zip
    [.ofString t.landscapeToken, .ofString t.traceId, .ofInt t.startTime.toInt,
      .ofInt t.endTime.toInt, .ofInt t.duration.toInt, .array (t.spans.map Span.toValue),
      .ofInt t.overallRequestCount.toInt, .ofInt t.traceCount.toInt])

def spans? : Value → Option (List Span)
  | .array items => items.mapM Span.ofValue?
  | _ => none

def ofMembers? (members : List (String × Value)) : Option Trace := do
  let landscapeToken ← required? "landscapeToken" Value.text? members
  let traceId ← required? "traceId" Value.text? members
  let startTime ← required? "startTime" Value.int64? members
  let endTime ← required? "endTime" Value.int64? members
  let duration ← required? "duration" Value.int64? members
  let spans ← required? "spanList" spans? members
  let overallRequestCount ← required? "overallRequestCount" Value.int32? members
  let traceCount ← required? "traceCount" Value.int32? members
  return { landscapeToken, traceId, startTime, endTime, duration, spans, overallRequestCount,
           traceCount }

def ofItems? : List Value → Option Trace
  | [landscapeToken, traceId, startTime, endTime, duration, spans, overallRequestCount,
      traceCount] => do
    let landscapeToken ← landscapeToken.text?
    let traceId ← traceId.text?
    let startTime ← startTime.int64?
    let endTime ← endTime.int64?
    let duration ← duration.int64?
    let spans ← spans? spans
    let overallRequestCount ← overallRequestCount.int32?
    let traceCount ← traceCount.int32?
    return { landscapeToken, traceId, startTime, endTime, duration, spans, overallRequestCount,
             traceCount }
  | _ => none

def ofValue? : Value → Option Trace
  | .object members => (named? members).bind ofMembers?
  | .array items => ofItems? items
  | _ => none

/-- The canonical text of a trace. -/
def render (t : Trace) : List Char := t.toValue.render

/-- Reads a trace from its text. -/
def read? (text : String) : Option Trace := (Value.read? text).bind ofValue?

/-- The bytes of the record that a trace is shipped as. -/
def recordSize (t : Trace) : Nat := byteLength t.render

end CallTrace.Trace

namespace CallTrace.Span

/-- The bytes that a span takes up in a record. -/
def recordSize (s : Span) : Nat := Json.byteLength s.render

end CallTrace.Span
