import CallTrace.Tree.Traversal

/-! # Copies of a part of a tree

A reduced tree is assembled from copies of nodes of the tree it reduces.  A `Partial` copy is the
arena of the new tree together with the copy of each old node made so far and the copy of the
root, once there is one. -/

namespace CallTrace.CallTree

structure Partial where
  arena : Arena := {}
  /-- The copy of each node, by the number of the node in the old tree. -/
  copies : Array (Option Nat)
  root : Option Nat := none

namespace Partial

def empty (t : CallTree) : Partial where
  copies := Array.replicate t.size none

/-- The copy of a node. -/
def copy? (p : Partial) (id : Nat) : Option Nat := p.copies[id]?.join

/-- Copies a node; its copy is the node `p.arena.size`. -/
def add (p : Partial) (t : CallTree) (id : Nat) : Partial :=
  { p with
    arena := p.arena.add (t.span id)
    copies := p.copies.setIfInBounds id (some p.arena.size) }

def attach (p : Partial) (parent child : Nat) : Partial :=
  { p with arena := p.arena.attach parent child }

def finish (p : Partial) : Except InvalidTrace CallTree :=
  match p.root with
  | none => .error .noRoot
  | some root => p.arena.finish root

end Partial
end CallTrace.CallTree
