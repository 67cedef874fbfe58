import CallTrace.Log
import CallTrace.Tree.Collapse
import CallTrace.Tree.Reconstruction
import CallTrace.Tree.Truncation

/-! # Reducing a trace

A closed trace is rebuilt as a call tree, cut at a depth, freed from loops and flattened again
(`Trace.reduce?`).  Reduction is best effort: a trace that is no call tree is kept as it is
(`Trace.reduce`). -/

namespace CallTrace

/-- What became of a trace. -/
inductive Reduction where
  | reduced (trace : Trace) (removedSpans : Nat)
  /-- The trace is kept unchanged because of its fault. -/
  | unchanged (trace : Trace) (fault : InvalidTrace)
deriving DecidableEq, Repr

def Reduction.trace : Reduction → Trace
  | reduced t _ => t
  | unchanged t _ => t

namespace Trace

def reduce? (depthLimit : Nat) (t : Trace) : Except InvalidTrace Trace := do
  let tree ← CallTree.ofSpans t.spans
  let tree ← tree.truncate depthLimit
  let tree ← tree.collapse
  return tree.flatten

def reduce (depthLimit : Nat) (t : Trace) : Reduction :=
  match t.reduce? depthLimit with
  | .ok r => .reduced r (t.spans.length - r.spans.length)
  | .error fault => .unchanged t fault

/-- How the reduction of `t` is reported. -/
def reductionLog (t : Trace) : Reduction → LogLine
  | .reduced _ removed =>
      ⟨.trace, "Reduced trace " ++ t.windowKey ++ " by " ++ toString removed ++ " spans"⟩
  | .unchanged _ fault => ⟨.warn, "Could not perform reduction: " ++ fault.message⟩

end Trace
end CallTrace
