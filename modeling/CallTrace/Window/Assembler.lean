import CallTrace.Record.Trace
import CallTrace.Window.Notice

/-! # Assembling traces from a stream of spans

An `Assembler` groups spans by window key and by the window their start time falls into.  Each
group fills one `Slot`, and the slots stand in the order of their windows, those of one window in
the order of their keys.  The watermark is the highest time seen.  When it has passed a window's
end and grace period, the slots of that window are emitted and gone (`Assembler.close`): since the
windows stand in order, these slots come first.

A span of a window that has been emitted is late and dropped.  A slot whose record outgrows the
limit is emptied, and stays behind as a mark that its trace was dropped; the sizes are added up
span by span, and the whole record is measured once more before it is emitted. -/

namespace CallTrace

/-- The spans gathered so far for one key in one window. -/
structure Slot where
  /-- Start of the window. -/
  start : Timestamp
  key : String
  trace : Trace
  /-- The record size, added up over the spans. -/
  size : Nat
  /-- Whether the trace was dropped for its size. -/
  overflowed : Bool
deriving DecidableEq, Repr

/-- Traces that are passed on, and what there is to say about it. -/
structure Emission where
  traces : List Trace := []
  notices : List Notice := []
deriving DecidableEq, Repr

def Emission.append (a b : Emission) : Emission :=
  ⟨a.traces ++ b.traces, a.notices ++ b.notices⟩

instance : Append Emission := ⟨Emission.append⟩

structure Assembler where
  config : WindowConfig
  watermark : Option Timestamp := none
  slots : List Slot := []
deriving DecidableEq, Repr

namespace Slot

/-- Drops the trace of a slot that has outgrown the limit. -/
def limited (limit : Nat) (window : Window) (s : Slot) : Slot × List Notice :=
  if limit < s.size then
    ({ s with trace := {}, overflowed := true }, [.oversized s.key window limit])
  else (s, [])

/-- The slot of a first span. -/
def first (limit : Nat) (window : Window) (span : Span) : Slot × List Notice :=
  let trace := Trace.add {} span
  limited limit window
    { start := window.start
      key := span.windowKey
      trace := trace
      size := trace.recordSize
      overflowed := false }

/-- The slot with a further span, which takes a comma in the record. -/
def extend (limit : Nat) (window : Window) (span : Span) (s : Slot) : Slot × List Notice :=
  if s.overflowed then (s, [])
  else
    limited limit window
      { s with trace := s.trace.add span, size := s.size + (span.recordSize + 1) }

/-- Whether the slot of that window and key stands before `s`. -/
def precedes (start : Timestamp) (key : String) (s : Slot) : Bool :=
  start < s.start || (start = s.start && key < s.key)

/-- Puts a span into its slot, making one in its place if there is none. -/
def place (limit : Nat) (window : Window) (span : Span) : List Slot → List Slot × List Notice
  | [] =>
    let (s, notices) := first limit window span
    ([s], notices)
  | s :: slots =>
    if s.start = window.start ∧ s.key = span.windowKey then
      let (s, notices) := s.extend limit window span
      (s :: slots, notices)
    else if precedes window.start span.windowKey s then
      let (new, notices) := first limit window span
      (new :: s :: slots, notices)
    else
      let (slots, notices) := place limit window span slots
      (s :: slots, notices)

/-- What a slot of a closed window passes on. -/
def emit (c : WindowConfig) (s : Slot) : Emission :=
  if s.overflowed then {}
  else if s.trace.recordSize ≤ c.maxRecordSize then
    { traces := [s.trace], notices := [.reconstructed] }
  else { notices := [.oversized s.key (c.windowOf s.start) c.maxRecordSize] }

end Slot

namespace Assembler

def new? (c : WindowConfig) : Except ConfigError Assembler :=
  match c.check with
  | .ok () => .ok { config := c }
  | .error e => .error e

def windowOf (a : Assembler) (time : Timestamp) : Window := a.config.windowOf time

def phase (a : Assembler) (w : Window) : Phase := a.config.phase a.watermark w

/-- The slots that can still emit a trace. -/
def openWindows (a : Assembler) : Nat := a.slots.countP fun s => !s.overflowed

/-- The slots whose trace was dropped for its size and whose window has not closed. -/
def overflowedWindows (a : Assembler) : Nat := a.slots.countP fun s => s.overflowed

/-- Whether the window of a slot is closed. -/
def expired (a : Assembler) (s : Slot) : Bool := a.phase (a.windowOf s.start) = .closed

/-- Emits the slots of all closed windows. -/
def close (a : Assembler) : Assembler × Emission :=
  let emissions := (a.slots.takeWhile a.expired).map (Slot.emit a.config)
  ({ a with slots := a.slots.dropWhile a.expired }, emissions.foldl (· ++ ·) {})

/-- Raises the watermark to a time, never lowers it. -/
def raise (a : Assembler) (time : Timestamp) : Assembler :=
  { a with watermark := match a.watermark with
      | none => some time
      | some m => some (max m time) }

def push (a : Assembler) (span : Span) : Assembler × Emission :=
  let window := a.windowOf span.startTime
  if a.phase window = .closed then (a, { notices := [.late span window] })
  else
    let (slots, notices) := Slot.place a.config.maxRecordSize window span a.slots
    let (a, emission) := { a.raise span.startTime with slots := slots }.close
    (a, { notices := notices } ++ emission)

/-- Moves event time on without a span. -/
def advance (a : Assembler) (time : Timestamp) : Assembler × Emission := (a.raise time).close

/-- Drops all slots without emitting them, and says how many could still have been emitted. -/
def discard (a : Assembler) : Assembler × Nat × List Notice :=
  ({ a with slots := [] }, a.openWindows, [.discarded a.openWindows])

end Assembler
end CallTrace
