import CallTrace.Error
import CallTrace.Span

/-! # Call trees and how they are assembled

A `CallTree` holds its nodes in an array and names a node by its place there.  Trees are put
together in an `Arena`: nodes are added, then attached to each other in any order, and
`Arena.finish` freezes the arena into a tree, giving every node its level.

Nothing stops a caller from attaching a node twice, to itself, or in a circle, so `finish` checks.
It walks the layers below the root, and refuses a node that already has a level; in the end every
node has to have one.  A layer gives at least one node its level, so there are no more layers than
nodes, which bounds the walk (`Arena.levels?`). -/

namespace CallTrace

/-- A node of a finished tree. -/
structure CallTree.Node where
  span : Span
  parent : Option Nat
  children : List Nat
  /-- Steps to the root. -/
  level : Nat
deriving DecidableEq, Repr, Inhabited

structure CallTree where
  nodes : Array CallTree.Node
  root : Nat
deriving DecidableEq, Repr

/-- A node that may still be attached. -/
structure Arena.Node where
  span : Span
  parent : Option Nat := none
  children : List Nat := []
deriving DecidableEq, Repr, Inhabited

structure Arena where
  nodes : Array Arena.Node := #[]
deriving DecidableEq, Repr

namespace Arena

/-- The number of nodes, and the name of the node that is added next. -/
def size (a : Arena) : Nat := a.nodes.size

def add (a : Arena) (s : Span) : Arena := ⟨a.nodes.push { span := s }⟩

/-- Makes `child` the last child of `parent`. -/
def attach (a : Arena) (parent child : Nat) : Arena :=
  let linked := a.nodes.modify parent fun n => { n with children := n.children ++ [child] }
  ⟨linked.modify child fun n => { n with parent := some parent }⟩

def parent (a : Arena) (id : Nat) : Option Nat := a.nodes[id]?.bind (·.parent)

def children (a : Arena) (id : Nat) : List Nat :=
  match a.nodes[id]? with
  | some n => n.children
  | none => []

@[simp] theorem size_add (a : Arena) (s : Span) : (a.add s).size = a.size + 1 := by
  simp [add, size]

@[simp] theorem size_attach (a : Arena) (parent child : Nat) :
    (a.attach parent child).size = a.size := by
  simp [attach, size]

/-- Attaching adds to the children of the parent and of no other node. -/
theorem children_attach (a : Arena) {parent child : Nat} (hp : parent < a.size) (id : Nat) :
    (a.attach parent child).children id
      = if id = parent then a.children id ++ [child] else a.children id := by
  simp only [children, attach, Array.getElem?_modify]
  cases hn : a.nodes[id]? with
  | none =>
    have h : id ≠ parent := fun e => by
      simp only [size] at hp
      simp [e, hp] at hn
    by_cases hc : child = id <;> simp [h, Ne.symm h, hc]
  | some n => by_cases hc : child = id <;> by_cases h : parent = id <;> simp [h, hc, eq_comm]

/-! ### Levels -/

/-- Gives the nodes of a layer their level; nothing if one of them has a level already. -/
def enterLayer? (level : Nat) : List Nat → Array (Option Nat) → Option (Array (Option Nat))
  | [], levels => some levels
  | id :: layer, levels =>
    if levels[id]? = some none then
      enterLayer? level layer (levels.setIfInBounds id (some level))
    else none

/-- Walks at most `layers` layers, beginning with `layer`. -/
def walk? (a : Arena) (layers level : Nat) (layer : List Nat) (levels : Array (Option Nat)) :
    Option (Array (Option Nat)) :=
  match layers, layer with
  | _, [] => some levels
  | 0, _ :: _ => none
  | layers + 1, id :: rest => do
    let levels ← enterLayer? level (id :: rest) levels
    a.walk? layers (level + 1) ((id :: rest).flatMap a.children) levels

/-- The level of every node below `root`, if no node is reached twice. -/
def levels? (a : Arena) (root : Nat) : Option (Array (Option Nat)) :=
  a.walk? a.size 0 [root] (Array.replicate a.size none)

/-- Freezes an arena into the tree below `root`. -/
def finish (a : Arena) (root : Nat) : Except InvalidTrace CallTree :=
  if (a.parent root).isSome then .error .cycle
  else
    match a.levels? root with
    | none => .error .cycle
    | some levels =>
      if levels.all Option.isSome then
        .ok {
          nodes := Array.zipWith
            (fun n level => ⟨n.span, n.parent, n.children, level.getD 0⟩) a.nodes levels
          root := root }
      else .error .cycle

end Arena
end CallTrace
