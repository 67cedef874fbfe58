import CallTrace.Counters.Basic
import CallTrace.Log
import CallTrace.Span
import CallTrace.Window.Basic

/-! # Notices

What an assembler has to say besides the traces it emits.  Every notice is counted, and most are
logged. -/

namespace CallTrace

inductive Notice where
  /-- A span came after its window was emitted. -/
  | late (span : Span) (window : Window)
  /-- A trace has grown beyond the largest record. -/
  | oversized (key : String) (window : Window) (limit : Nat)
  /-- A trace was emitted. -/
  | reconstructed
  /-- That many traces were dropped before their windows closed. -/
  | discarded (count : Nat)
deriving DecidableEq, Repr

namespace Notice

/-- The counter that a notice raises, and by how much. -/
def count : Notice → Counter × UInt64
  | late _ _ => (.lateSpans, 1)
  | oversized _ _ _ => (.oversizedRecords, 1)
  | reconstructed => (.reconstructedTraces, 1)
  | discarded n => (.discardedWindows, n.toUInt64)

def windowText (w : Window) : String :=
  "[" ++ toString w.start.toInt ++ ", " ++ toString w.stop.toInt ++ ")"

def log? : Notice → Option LogLine
  | late span window =>
      some ⟨.trace, "Dropping late span " ++ span.spanId ++ " of " ++ span.windowKey
        ++ " for window " ++ windowText window⟩
  | oversized key window limit =>
      some ⟨.warn, "Dropping trace " ++ key ++ " in window " ++ windowText window
        ++ ": record exceeds " ++ toString limit ++ " bytes"⟩
  | reconstructed => none
  | discarded _ => none

end Notice

/-- Counts what notices report. -/
def Counters.record (c : Counters) (notices : List Notice) : Counters :=
  notices.foldl (fun c n => c.add n.count.1 n.count.2) c

end CallTrace
