import CallTrace.Tree.Copy

/-! # Collapsing loops and recursion

Two leaves of one level are iterations of each other if the operation hashes on the paths from
them up to their lowest common ancestor agree (`CallTree.sameCalls`).  Of such leaves only the
first in breadth-first order is kept (`CallTree.keptLeaves`), and with it all of its ancestors.

The reduced tree is put together leaf by leaf (`CallTree.graft`): the leaf, then its ancestors
upwards until one that an earlier leaf has brought along. -/

namespace CallTrace.CallTree

/-! ### Which leaves are kept -/

/-- Climbs two paths in lockstep until they meet, and returns the nodes below the meeting point
in pairs.  Each path begins with a node and goes on with its ancestors. -/
def untilMeeting : List Nat → List Nat → Except InvalidTrace (List (Nat × Nat))
  | u :: p :: us, v :: q :: vs =>
    if p = q then .ok [(u, v)]
    else do return (u, v) :: (← untilMeeting (p :: us) (q :: vs))
  | _, _ => .error .noCommonAncestor

/-- The paths from two nodes of one level up to their lowest common ancestor, in pairs. -/
def pathsToMeeting (t : CallTree) (u v : Nat) : Except InvalidTrace (List (Nat × Nat)) :=
  if t.level u ≠ t.level v then .error (.levelMismatch (t.level u) (t.level v))
  else untilMeeting (u :: t.ancestors u) (v :: t.ancestors v)

/-- Whether two nodes are reached from where their paths part by the same operations. -/
def sameCalls (t : CallTree) (u v : Nat) : Except InvalidTrace Bool := do
  let paths ← t.pathsToMeeting u v
  return paths.all fun (a, b) => (t.span a).operationHash = (t.span b).operationHash

/-- Adds a leaf to those kept unless one of them stands for it. -/
def keep (t : CallTree) (kept : List Nat) (leaf : Nat) : Except InvalidTrace (List Nat) := do
  if ← kept.anyM fun u => t.sameCalls u leaf then return kept else return kept ++ [leaf]

def leaves (t : CallTree) : List Nat := t.bfs.filter t.isLeaf

/-- The leaves of a level, breadth-first. -/
def leavesAt (t : CallTree) (level : Nat) : List Nat :=
  t.leaves.filter fun id => t.level id = level

/-- The leaves that are kept, level by level. -/
def keptLeaves (t : CallTree) : Except InvalidTrace (List Nat) := do
  let kept ← (List.range (t.depth + 1)).mapM fun level => (t.leavesAt level).foldlM t.keep []
  return kept.flatten

/-! ### The tree above them -/

/-- Links a new copy upwards along the ancestors of its node, copying those that are not there
yet; a copy that has none left above it is the root. -/
def climb (t : CallTree) (p : Partial) (copy : Nat) : List Nat → Partial
  | [] => { p with root := some copy }
  | parent :: ancestors =>
    match p.copy? parent with
    | some parentCopy => p.attach parentCopy copy
    | none =>
      let parentCopy := p.arena.size
      t.climb ((p.add t parent).attach parentCopy copy) parentCopy ancestors

/-- Copies a leaf together with the ancestors that are missing. -/
def graft (t : CallTree) (p : Partial) (leaf : Nat) : Partial :=
  t.climb (p.add t leaf) p.arena.size (t.ancestors leaf)

def collapse (t : CallTree) : Except InvalidTrace CallTree := do
  let kept ← t.keptLeaves
  (kept.foldl t.graft (.empty t)).finish

end CallTrace.CallTree
