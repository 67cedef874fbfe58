import CallTrace.Proofs.Tree.Attachments
import CallTrace.Proofs.Tree.Path

/-! # Breadth-first traversal

A traversal can be asked for one node at a time.  It keeps a queue, in the beginning with the root
alone, and answers with the first node in it, whose children join at the end (`CallTree.next`).  It
does not keep which nodes it has met, so on links that go in a circle it would not end.

On a frozen arena it ends, since its answers are those of a walk.  The calls that answer with one
layer leave the next layer in the queue (`answers_append`), so they are the layers one after the
other, and nothing from then on (`Walk.answers_eq`).  The order on the walk is that of the tree
(`bfs_level_order`): a node comes after its parent, siblings stand as in their child list, and nodes
with different parents as their parents do (`Rooted.sublist_bfs_iff`). -/

namespace CallTrace

namespace CallTree

/-- The answer of a traversal with these nodes in its queue, and the queue that it leaves. -/
def next (t : CallTree) : List Nat → Option Nat × List Nat
  | [] => (none, [])
  | id :: queue => (some id, queue ++ t.children id)

/-- What so many calls answer. -/
def answers (t : CallTree) : Nat → List Nat → List (Option Nat)
  | 0, _ => []
  | calls + 1, queue => (t.next queue).1 :: t.answers calls (t.next queue).2

theorem answers_nil (t : CallTree) (calls : Nat) :
    t.answers calls [] = List.replicate calls none := by
  induction calls with
  | zero => rfl
  | succ calls ih => rw [answers, next, ih, List.replicate_succ]

/-- While the first nodes of a queue come out, the children of all of them join. -/
theorem answers_append (t : CallTree) (layer queue : List Nat) (calls : Nat) :
    t.answers (layer.length + calls) (layer ++ queue)
      = layer.map some ++ t.answers calls (queue ++ layer.flatMap t.children) := by
  induction layer generalizing queue with
  | nil => simp
  | cons id layer ih =>
    rw [List.length_cons, Nat.add_right_comm, answers]
    simp only [List.cons_append, next, List.append_assoc, ih, List.map_cons, List.flatMap_cons]

end CallTree

/-- The answers of a traversal are a walk that ends, and then nothing. -/
theorem Walk.answers_eq {t : CallTree} {layer nodes : List Nat} (h : Walk t.children layer nodes)
    (calls : Nat) :
    t.answers (nodes.length + calls) layer = nodes.map some ++ List.replicate calls none := by
  induction h with
  | done => simpa using t.answers_nil calls
  | @layer layer rest _ ih =>
    have hlayer := t.answers_append layer [] (rest.length + calls)
    rw [List.append_nil, List.nil_append, ih, ← Nat.add_assoc] at hlayer
    rw [List.length_append, hlayer, List.map_append, List.append_assoc]

namespace CallTree

namespace Rooted
variable {t : CallTree} {x y p q : Nat}

theorem answers_eq (h : t.Rooted) (calls : Nat) :
    t.answers (t.size + calls) [t.root] = t.bfs.map some ++ List.replicate calls none := by
  have hlength : t.bfs.length = t.size := by rw [h.bfs_perm.length_eq, List.length_range]
  rw [← hlength]
  exact h.walk.answers_eq calls

theorem sublist_bfs_of_parent (h : t.Rooted) (hlink : t.parent x = some p) :
    [p, x].Sublist t.bfs := by
  apply h.sublist_bfs_of_level_lt (h.parent_lt hlink) (lt_size_of_parent hlink)
  have := h.level_of_parent hlink
  omega

theorem sublist_bfs_of_parents (h : t.Rooted) (hx : t.parent x = some p) (hy : t.parent y = some q)
    (hpq : [p, q].Sublist t.bfs) : [x, y].Sublist t.bfs := by
  rw [h.bfs_eq]
  exact (hpq.pair_flatMap (h.mem_children.mpr hx) (h.mem_children.mpr hy)).cons _

/-- Children of different nodes come in the order of these nodes. -/
theorem sublist_bfs_iff (h : t.Rooted) (hx : t.parent x = some p) (hy : t.parent y = some q)
    (hne : p ≠ q) : [x, y].Sublist t.bfs ↔ [p, q].Sublist t.bfs := by
  refine ⟨fun hxy => ?_, h.sublist_bfs_of_parents hx hy⟩
  have hp := h.mem_bfs_iff.mpr (h.parent_lt hx)
  have hq := h.mem_bfs_iff.mpr (h.parent_lt hy)
  refine (List.sublist_or_sublist_swap hp hq hne).resolve_right fun hqp => ?_
  exact h.nodup_bfs.not_sublist_swap hxy (h.sublist_bfs_of_parents hy hx hqp)

end Rooted

/-- A traversal of a frozen arena answers as often as there are nodes and with every node once,
beginning with the root.  Levels never go down on the way, parents come before their children,
siblings as in their child list, and children of different nodes in the order of these nodes. -/
theorem bfs_level_order {links : List (Nat × Nat)} {a : Arena} {root : Nat} {t : CallTree}
    (h : a.Assembled links) (hok : a.finish root = .ok t) :
    (∀ calls, t.answers (t.size + calls) [t.root]
      = t.bfs.map some ++ List.replicate calls none) ∧
    t.bfs.Perm (List.range t.size) ∧ t.bfs.head? = some t.root ∧
    t.bfs.Pairwise (fun x y => t.level x ≤ t.level y) ∧
    (∀ child parent, t.parent child = some parent → [parent, child].Sublist t.bfs) ∧
    (∀ parent < t.size, (t.children parent).Sublist t.bfs) ∧
    ∀ x y p q, t.parent x = some p → t.parent y = some q → p ≠ q →
      ([x, y].Sublist t.bfs ↔ [p, q].Sublist t.bfs) := by
  have ht := h.rooted hok
  refine ⟨ht.answers_eq, ht.bfs_perm, ?_, ht.pairwise_level_bfs, ?_, ?_, ?_⟩
  · rw [ht.bfs_eq]
    rfl
  · exact fun child parent hlink => ht.sublist_bfs_of_parent hlink
  · exact fun parent hlt => ht.children_sublist_bfs hlt
  · exact fun x y p q hx hy hne => ht.sublist_bfs_iff hx hy hne

/-- The root was added between its descendants, and the branch of node 0 was begun before the one that
comes first. -/
theorem bfs_level_order_root_in_the_middle :
    let bare := (((({} : Arena).add { spanId := "a" }).add { spanId := "d" }).add { spanId := "r" })
    let a := ((((bare.add { spanId := "c" }).add { spanId := "b" }).attach 0 3).attach 2 4).attach 4 1
      |>.attach 2 0
    ∃ t, a.Assembled [(0, 3), (2, 4), (4, 1), (2, 0)] ∧ a.finish 2 = .ok t ∧
      t.answers 7 [t.root] = [some 2, some 4, some 0, some 1, some 3, none, none] ∧
      [0, 3].Sublist t.bfs ∧ [1, 3].Sublist t.bfs := by
  intro bare a
  have hbare : Arena.Assembled [] ((bare.add { spanId := "c" }).add { spanId := "b" }) :=
    ((((Arena.Assembled.empty.add _).add _).add _).add _).add _
  have ha : a.Assembled [(0, 3), (2, 4), (4, 1), (2, 0)] :=
    (((hbare.attach 0 3 (by decide) (by decide)).attach 2 4 (by decide) (by decide)).attach 4 1
      (by decide) (by decide)).attach 2 0 (by decide) (by decide)
  let t : CallTree := {
    nodes := #[
      ⟨{ spanId := "a" }, some 2, [3], 1⟩, ⟨{ spanId := "d" }, some 4, [], 2⟩,
      ⟨{ spanId := "r" }, none, [4, 0], 0⟩, ⟨{ spanId := "c" }, some 0, [], 2⟩,
      ⟨{ spanId := "b" }, some 2, [1], 1⟩]
    root := 2 }
  have hok : a.finish 2 = .ok t := by decide +kernel
  obtain ⟨hanswers, -, -, -, hparents, hsiblings, hparted⟩ := bfs_level_order ha hok
  have hbfs : t.bfs = [2, 4, 0, 1, 3] := by decide
  refine ⟨t, ha, hok, ?_, hparents 3 0 (by decide), ?_⟩
  · rw [show 7 = t.size + 2 from rfl, hanswers, hbfs]
    rfl
  · exact (hparted 1 3 4 0 (by decide) (by decide) (by decide)).mpr (hsiblings 2 (by decide))

end CallTree
end CallTrace
