import CallTrace.Tree.Copy

/-! # Cutting a tree at a depth

`CallTree.truncate` keeps the nodes up to a level and drops every subtree below.  Nodes are copied
breadth-first: a parent is copied before its children, and the first node beyond the limit ends
the copying, since levels never decrease in that order. -/

namespace CallTrace

/-- The limit that a setting asks for. -/
def depthLimit? (limit : Int64) : Except ConfigError Nat :=
  if limit < 0 then .error (.negativeDepthLimit limit) else .ok limit.toInt.toNat

namespace CallTree

/-- Copies a node below the copy of its parent. -/
def copyBelow (t : CallTree) (p : Partial) (id : Nat) : Except InvalidTrace Partial :=
  let copy := p.arena.size
  let p := p.add t id
  match t.parent id with
  | none => .ok { p with root := some copy }
  | some parent =>
    match p.copy? parent with
    | none => .error (.disconnected 1)
    | some parentCopy => .ok (p.attach parentCopy copy)

def truncate (limit : Nat) (t : CallTree) : Except InvalidTrace CallTree := do
  let kept := t.bfs.takeWhile fun id => t.level id ≤ limit
  let p ← kept.foldlM t.copyBelow (.empty t)
  p.finish

end CallTree
end CallTrace
