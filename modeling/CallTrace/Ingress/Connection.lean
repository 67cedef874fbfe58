import CallTrace.Ingress.Lines
import CallTrace.Pipeline.Basic
import CallTrace.Record.Ingress
import CallTrace.Store.Events
import CallTrace.Text.Blank

/-! # Ingress connections

A connection is a stream of lines, each with one record.  Spans go into the pipeline and token
events to its store.  Blank lines are passed over, and so are lines that hold no record, with a
warning.  A line that is no UTF-8 ends the connection, and so does a span that the pipeline does not
take; a token event that fails does not.  What was read before the end has been handed on. -/

namespace CallTrace.Ingress

/-- What the bytes of a line are. -/
inductive Line where
  | blank
  /-- A text without a record. -/
  | malformed
  /-- No text at all. -/
  | undecodable
  | record (r : Record)
deriving DecidableEq, Repr

def Line.ofBytes (bytes : Bytes) : Line :=
  match String.fromUTF8? ⟨bytes.toArray⟩ with
  | none => .undecodable
  | some text =>
    if Text.isBlankText text then .blank
    else
      match Record.read? text with
      | none => .malformed
      | some r => .record r

/-- How a connection stands after a line. -/
inductive Standing where
  | reading
  | closed
  /-- The store broke down and the reader with it. -/
  | crashed
deriving DecidableEq, Repr

variable {σ : Type}

/-- Hands a span to the pipeline. -/
def takeSpan (s : Span) (p : Pipeline σ) : Standing × Pipeline σ :=
  match p.ingest s with
  | (.ok (), p) => (.reading, p)
  | (.error e, p) => (.closed, p.say ⟨.error, "Failed to ingest span: " ++ e.message⟩)

/-- Applies a token event to the store of the pipeline. -/
def takeEvent [Repository σ] (e : TokenEvent) (p : Pipeline σ) : Standing × Pipeline σ :=
  let o := e.apply p.shared.store
  let p := { p with shared := { p.shared with store := o.store, log := p.shared.log ++ o.log } }
  match o.result with
  | .ok () => (.reading, p.say ⟨.debug, "Applied token event"⟩)
  | .error (.refused e) => (.reading, p.say ⟨.debug, "Token event was not applied: " ++ e.message⟩)
  | .error .crashed => (.crashed, p)

def takeLine [Repository σ] (line : Line) (p : Pipeline σ) : Standing × Pipeline σ :=
  match line with
  | .blank => (.reading, p)
  | .malformed => (.reading, p.say ⟨.warn, "Skipping malformed record"⟩)
  | .undecodable => (.closed, p.say ⟨.warn, "Failed to read from connection"⟩)
  | .record (.span s) => takeSpan s p
  | .record (.tokenEvent e) => takeEvent e p

/-- Reads lines until one of them ends the connection or none is left. -/
def takeLines [Repository σ] : List Line → Pipeline σ → Standing × Pipeline σ
  | [], p => (.closed, p)
  | line :: lines, p =>
    match takeLine line p with
    | (.reading, p) => takeLines lines p
    | ended => ended

/-- A whole connection. -/
def read [Repository σ] (bytes : Bytes) (p : Pipeline σ) : Pipeline σ :=
  match takeLines ((lines bytes).map Line.ofBytes) p with
  | (.crashed, p) => p
  | (_, p) => p.say ⟨.debug, "Connection closed"⟩

end CallTrace.Ingress
