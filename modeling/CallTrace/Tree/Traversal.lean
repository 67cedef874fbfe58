import CallTrace.Tree.Arena
import CallTrace.Trace

/-! # Walking a call tree

The nodes in breadth-first order (`CallTree.bfs`) are the layers of the tree one after the other:
the root, then its children, then theirs, the children of one node in their order.  The nodes
above a node (`CallTree.ancestors`) lead from its parent up to the root.  Both walks are bounded
by the number of nodes.

The accessors take nodes of the tree at hand; `CallTree.node?` takes any number. -/

namespace CallTrace.CallTree

def size (t : CallTree) : Nat := t.nodes.size

/-- The node of that number, which another tree may not have. -/
def node? (t : CallTree) (id : Nat) : Option Node := t.nodes[id]?

def node (t : CallTree) (id : Nat) : Node := (t.node? id).getD default

def span (t : CallTree) (id : Nat) : Span := (t.node id).span

def parent (t : CallTree) (id : Nat) : Option Nat := (t.node id).parent

def children (t : CallTree) (id : Nat) : List Nat := (t.node id).children

def level (t : CallTree) (id : Nat) : Nat := (t.node id).level

def isLeaf (t : CallTree) (id : Nat) : Bool := (t.children id).isEmpty

/-- The highest level of a node. -/
def depth (t : CallTree) : Nat := t.nodes.foldl (fun d n => max d n.level) 0

/-! ### Downwards -/

/-- At most `count` layers, beginning with `layer`. -/
def layersFrom (t : CallTree) : Nat → List Nat → List (List Nat)
  | 0, _ => []
  | _ + 1, [] => []
  | count + 1, id :: layer =>
      (id :: layer) :: t.layersFrom count ((id :: layer).flatMap t.children)

def layers (t : CallTree) : List (List Nat) := t.layersFrom t.size [t.root]

def bfs (t : CallTree) : List Nat := t.layers.flatten

def spans (t : CallTree) : List Span := t.bfs.map t.span

/-- The trace of all spans of the tree, its bounds taken from them. -/
def flatten (t : CallTree) : Trace := Trace.ofSpans t.spans

/-! ### Upwards -/

/-- At most `count` nodes above a node. -/
def ancestorsWithin (t : CallTree) : Nat → Nat → List Nat
  | 0, _ => []
  | count + 1, id =>
    match t.parent id with
    | none => []
    | some p => p :: t.ancestorsWithin count p

def ancestors (t : CallTree) (id : Nat) : List Nat := t.ancestorsWithin t.size id

end CallTrace.CallTree
