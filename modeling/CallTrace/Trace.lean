import CallTrace.Span

/-! # Traces

A `Trace` gathers the spans of one landscape and trace id together with the time they cover.
`Trace.add` folds one more span into it: an empty trace takes everything from the span, any other
widens its bounds.  The duration is brought up to date when a bound moves, and only then, so a
trace whose duration is `elapsed` of its bounds keeps it so. -/

namespace CallTrace

structure Trace where
  landscapeToken : String := ""
  traceId : String := ""
  startTime : Timestamp := 0
  endTime : Timestamp := 0
  duration : Timestamp := 0
  spans : List Span := []
  overallRequestCount : Int32 := 0
  traceCount : Int32 := 0
deriving DecidableEq, Repr, Inhabited

namespace Trace

def isEmpty (t : Trace) : Bool := t.spans.isEmpty

def windowKey (t : Trace) : String := CallTrace.windowKey t.landscapeToken t.traceId

/-- Moves the trace and every span of it to another landscape. -/
def relabel (token : String) (t : Trace) : Trace :=
  { t with landscapeToken := token, spans := t.spans.map (Span.relabel token) }

/-! ### Aggregation -/

/-- The trace that holds one span. -/
def single (s : Span) : Trace where
  landscapeToken := s.landscapeToken
  traceId := s.traceId
  startTime := s.startTime
  endTime := s.endTime
  duration := Timestamp.elapsed s.startTime s.endTime
  spans := [s]
  overallRequestCount := 1
  traceCount := 1

/-- Lowers the start to `time` if that is earlier. -/
def startBy (time : Timestamp) (t : Trace) : Trace :=
  if time < t.startTime then
    { t with startTime := time, duration := Timestamp.elapsed time t.endTime }
  else t

/-- Raises the end to `time` if that is later. -/
def endBy (time : Timestamp) (t : Trace) : Trace :=
  if t.endTime < time then
    { t with endTime := time, duration := Timestamp.elapsed t.startTime time }
  else t

def add (t : Trace) (s : Span) : Trace :=
  if t.isEmpty then single s
  else
    let widened := (t.startBy s.startTime).endBy s.endTime
    { widened with spans := widened.spans ++ [s] }

def ofSpans (spans : List Span) : Trace := spans.foldl add {}

@[simp] theorem spans_add (t : Trace) (s : Span) : (t.add s).spans = t.spans ++ [s] := by
  unfold add
  split
  · next h => simp [single, List.isEmpty_iff.mp h]
  · unfold endBy startBy
    split <;> split <;> rfl

theorem spans_foldl_add (t : Trace) (spans : List Span) :
    (spans.foldl add t).spans = t.spans ++ spans := by
  induction spans generalizing t with
  | nil => simp
  | cons s spans ih => simp [ih]

/-- No span is lost or moved. -/
@[simp] theorem spans_ofSpans (spans : List Span) : (ofSpans spans).spans = spans := by
  simp [ofSpans, spans_foldl_add]

end Trace
end CallTrace
