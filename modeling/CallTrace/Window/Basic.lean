import CallTrace.Error
import CallTrace.Timestamp

/-! # Windows

Event time is cut into windows of one size, beginning at the multiples of that size.  The first
and the last window of the range of timestamps are cut off there.

How far a window has come is its `Phase`: the watermark, which is the highest event time seen,
first passes its end and then its end plus the grace period.  Spans are accepted until then. -/

namespace CallTrace

/-- The times from `start` up to but not including `stop`. -/
structure Window where
  start : Timestamp
  stop : Timestamp
deriving DecidableEq, Repr

inductive Phase where
  /-- The watermark lies before the end. -/
  | opened
  /-- The window has ended and is in its grace period. -/
  | closing
  /-- The window has been emitted. -/
  | closed
deriving DecidableEq, Repr

structure WindowConfig where
  size : Int64 := 10000
  /-- How long a window stays open after its end. -/
  grace : Int64 := 2000
  /-- The largest record that is passed on, in bytes. -/
  maxRecordSize : Nat := 10 * 1024 * 1024
deriving DecidableEq, Repr

namespace WindowConfig

def check (c : WindowConfig) : Except ConfigError Unit :=
  if c.size ≤ 0 then
    .error (.invalid ("window size must be positive, got " ++ toString c.size.toInt))
  else if c.grace < 0 then
    .error (.invalid ("grace period must not be negative, got " ++ toString c.grace.toInt))
  else if c.maxRecordSize = 0 then
    .error (.invalid "max record size must be positive")
  else .ok ()

/-- The window that a time falls into. -/
def windowOf (c : WindowConfig) (time : Timestamp) : Window :=
  let offset := time.toInt % c.size.toInt
  { start := Timestamp.clamp (time.toInt - offset)
    stop := Timestamp.clamp (time.toInt + (c.size.toInt - offset)) }

/-- The time at which a window is emitted. -/
def closingTime (c : WindowConfig) (w : Window) : Timestamp :=
  Timestamp.clamp (w.stop.toInt + c.grace.toInt)

def phase (c : WindowConfig) (watermark : Option Timestamp) (w : Window) : Phase :=
  match watermark with
  | none => .opened
  | some m =>
    if c.closingTime w ≤ m then .closed
    else if w.stop ≤ m then .closing
    else .opened

end WindowConfig
end CallTrace
