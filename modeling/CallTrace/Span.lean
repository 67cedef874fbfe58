import CallTrace.Timestamp

/-! # Spans

A `Span` is one recorded invocation of an operation.  It names the span that called it; the root
of a trace names none.  Spans of one landscape and one trace share their `windowKey`, which is
what windows and partitions group by. -/

namespace CallTrace

structure Span where
  landscapeToken : String := ""
  traceId : String := ""
  spanId : String := ""
  /-- The calling span, empty at the root. -/
  parentSpanId : String := ""
  startTime : Timestamp := 0
  endTime : Timestamp := 0
  /-- Identity of the invoked operation; equal hashes mean the same operation. -/
  operationHash : String := ""
  hostAddress : String := ""
  instanceId : String := ""
  operationName : String := ""
deriving DecidableEq, Repr, Inhabited

/-- The key shared by all spans of a trace. -/
def windowKey (landscapeToken traceId : String) : String :=
  landscapeToken ++ "::" ++ traceId

namespace Span

def isRoot (s : Span) : Bool := s.parentSpanId.isEmpty

def windowKey (s : Span) : String := CallTrace.windowKey s.landscapeToken s.traceId

/-- The same invocation, recorded under another landscape. -/
def relabel (token : String) (s : Span) : Span := { s with landscapeToken := token }

end Span
end CallTrace
