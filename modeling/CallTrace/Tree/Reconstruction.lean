import Std.Data.HashMap
import CallTrace.Tree.Arena

/-! # Reconstructing a call tree

`CallTree.ofSpans` rebuilds the tree of a trace from its spans in whatever order they came.  A
first pass (`Census.ofSpans`) finds out which node each span id names and which span is the root,
and stops at the first span that is its own parent, repeats an id or is a second root.  Then every
other span is attached to its parent in the order of the list, so node `i` holds span `i` and the
children of a node stand in that order too.

What is left to fail afterwards does not hang on the order: there is no root, some parents are
missing, or some spans call each other in a circle. -/

namespace CallTrace

/-- Which spans have been seen. -/
structure Census where
  /-- The node of each span id. -/
  ids : Std.HashMap String Nat := {}
  root : Option Nat := none

namespace Census

/-- Takes note of the span of node `id`. -/
def note (c : Census) (id : Nat) (s : Span) : Except InvalidTrace Census :=
  if s.spanId = s.parentSpanId then .error (.selfParent s.spanId)
  else if c.ids.contains s.spanId then .error (.duplicateSpanId s.spanId)
  else if s.isRoot && c.root.isSome then .error .multipleRoots
  else .ok {
    ids := c.ids.insert s.spanId id
    root := if s.isRoot then some id else c.root }

def ofSpans (spans : List Span) : Except InvalidTrace Census :=
  spans.zipIdx.foldlM (fun c (s, id) => c.note id s) {}

/-- The node of the calling span. -/
def parent? (c : Census) (s : Span) : Option Nat :=
  if s.isRoot then none else c.ids[s.parentSpanId]?

/-- Whether a span names a parent that is not there. -/
def isOrphan (c : Census) (s : Span) : Bool := !s.isRoot && !c.ids.contains s.parentSpanId

end Census

/-- Attaches the span of node `id` to its parent. -/
def Arena.link (c : Census) (a : Arena) (s : Span) (id : Nat) : Arena :=
  match c.parent? s with
  | some p => a.attach p id
  | none => a

def CallTree.ofSpans (spans : List Span) : Except InvalidTrace CallTree := do
  let census ← Census.ofSpans spans
  match census.root with
  | none => throw .noRoot
  | some root =>
    let orphans := spans.countP census.isOrphan
    if 0 < orphans then throw (.disconnected orphans)
    let nodes := spans.foldl Arena.add {}
    let linked := spans.zipIdx.foldl (fun a (s, id) => a.link census s id) nodes
    linked.finish root

end CallTrace
