import CallTrace.Proofs.Tree.Links
import CallTrace.Proofs.Tree.Search
import Mathlib.Data.List.Perm.Basic

/-! # What was attached

An arena is assembled by adding nodes and attaching nodes that exist, as often as one likes and in
any order (`Arena.Assembled`).  Every attachment makes a child link, and the child lists say in which
order (`Assembled.children_eq`).  The parent links say less, for a node that was attached again only
knows its last parent (`Assembled.parent_eq`).

Freezing walks over the child links.  The children of nodes that are distinct are what was attached
to them (`Assembled.flatMap_children_perm`).  So if the walk meets every node once, the nodes are the
root and all that was ever attached, each once (`Assembled.perm_of_finish`).  Where that is so, no
parent was forgotten and both kinds of links agree (`Assembled.consistent`), and if moreover every
node can be reached there are ranks by which the walk succeeds (`Assembled.exists_ranked`).  Hence
the arenas that can be frozen are those that are a tree below the root (`finish_outcomes`). -/

namespace CallTrace

namespace Arena

/-- An arena after nodes were added and nodes that exist were attached; `links` are the pairs of
parent and child that were attached, the first one first. -/
inductive Assembled : List (Nat × Nat) → Arena → Prop
  | empty : Assembled [] {}
  | add (s : Span) {links : List (Nat × Nat)} {a : Arena} :
      Assembled links a → Assembled links (a.add s)
  | attach (parent child : Nat) {links : List (Nat × Nat)} {a : Arena} :
      Assembled links a → parent < a.size → child < a.size →
        Assembled (links ++ [(parent, child)]) (a.attach parent child)

/-! ### Steps from the root -/

/-- A node and how many steps below `root` it is, by the parent links. -/
inductive Descent (a : Arena) (root : Nat) : Nat → Nat → Prop
  | root : Descent a root root 0
  | child {parent child steps : Nat} :
      Descent a root parent steps → a.parent child = some parent →
        Descent a root child (steps + 1)

theorem Descent.exists_parent {a : Arena} {root id steps : Nat} (h : Descent a root id steps)
    (hne : id ≠ root) :
    ∃ parent above, a.parent id = some parent ∧ Descent a root parent above ∧ steps = above + 1 := by
  cases h with
  | root => exact absurd rfl hne
  | child habove hlink => exact ⟨_, _, hlink, habove, rfl⟩

theorem Descent.unique {a : Arena} {root id m n : Nat} (hroot : a.parent root = none)
    (hm : Descent a root id m) (hn : Descent a root id n) : m = n := by
  induction hm generalizing n with
  | root =>
    cases hn with
    | root => rfl
    | child _ hlink => simp [hroot] at hlink
  | child _ hlink ih =>
    cases hn with
    | root => simp [hroot] at hlink
    | child hn hlink' =>
      obtain rfl := Option.some.inj (hlink.symm.trans hlink')
      rw [ih hn]

/-! ### Links -/

namespace Assembled
variable {links : List (Nat × Nat)} {a : Arena} {root parent child : Nat} {t : CallTree}

theorem lt_size (h : Assembled links a) (hmem : (parent, child) ∈ links) :
    parent < a.size ∧ child < a.size := by
  induction h with
  | empty => simp at hmem
  | add s _ ih =>
    have := ih hmem
    rw [size_add]
    omega
  | attach p c _ hp hc ih =>
    rw [size_attach]
    rcases List.mem_append.mp hmem with hmem | hmem
    · exact ih hmem
    · obtain ⟨rfl, rfl⟩ := Prod.mk.inj (List.mem_singleton.mp hmem)
      exact ⟨hp, hc⟩

/-- The children of a node stand in the order in which they were attached. -/
theorem children_eq (h : Assembled links a) (id : Nat) :
    a.children id = (links.filter (·.1 = id)).map (·.2) := by
  induction h with
  | empty => rfl
  | add s _ ih => rw [children_add, ih]
  | attach p c _ hp _ ih =>
    rw [children_attach _ hp, ih, List.filter_append, List.map_append]
    by_cases hid : id = p <;> simp [hid, eq_comm]

/-- The parent of a node is the one that it was attached to last. -/
theorem parent_eq (h : Assembled links a) (id : Nat) :
    a.parent id = (links.filter (·.2 = id)).getLast?.map (·.1) := by
  induction h with
  | empty => rfl
  | add s _ ih => rw [parent_add, ih]
  | attach p c _ _ hc ih =>
    rw [parent_attach _ hc, ih, List.filter_append, List.getLast?_append]
    by_cases hid : id = c <;> simp [hid, eq_comm]

theorem mem_children (h : Assembled links a) :
    child ∈ a.children parent ↔ (parent, child) ∈ links := by
  rw [h.children_eq]
  simp

theorem mem_of_parent (h : Assembled links a) (hlink : a.parent child = some parent) :
    (parent, child) ∈ links := by
  rw [h.parent_eq, Option.map_eq_some_iff] at hlink
  obtain ⟨link, hlast, rfl⟩ := hlink
  obtain ⟨hmem, heq⟩ := List.mem_filter.mp (List.mem_of_getLast? hlast)
  rwa [← of_decide_eq_true heq]

theorem parent_eq_none_iff (h : Assembled links a) :
    a.parent child = none ↔ child ∉ links.map (·.2) := by
  rw [h.parent_eq, Option.map_eq_none_iff, List.getLast?_eq_none_iff, List.filter_eq_nil_iff]
  simp only [decide_eq_true_eq, List.mem_map, not_exists, not_and]

/-- The children of some nodes are what was attached to them. -/
theorem flatMap_children_perm (h : Assembled links a) {nodes : List Nat} (hnodup : nodes.Nodup)
    (hnodes : ∀ link ∈ links, link.1 ∈ nodes) :
    (nodes.flatMap a.children).Perm (links.map (·.2)) := by
  induction h with
  | empty => simp [children]
  | add s _ ih =>
    rw [List.flatMap_congr fun id _ => children_add _ s id]
    exact ih hnodes
  | @attach p c links a _ hp _ ih =>
    -- The parent stands in the list once, so the new child is met once.
    have hchildren : (a.attach p c).children
        = fun id => a.children id ++ if p = id then [c] else [] := by
      funext id
      rw [children_attach a hp]
      rcases eq_or_ne p id with rfl | hne
      · simp
      · simp [hne, hne.symm]
    rw [hchildren, List.map_append]
    refine (List.flatMap_append_perm nodes _ _).symm.trans ?_
    rw [List.flatMap_ite_eq hnodup (hnodes (p, c) (by simp))]
    exact (ih fun link hlink => hnodes link (by simp [hlink])).append_right _

/-- The nodes are the root and what was attached, each once, if nothing was attached above the root
and every other node was attached once. -/
theorem perm_range_iff (h : Assembled links a) (hroot : root < a.size) :
    (root :: links.map (·.2)).Perm (List.range a.size) ↔
      (∀ parent, (parent, root) ∉ links) ∧
        ∀ id < a.size, id ≠ root → links.countP (·.2 = id) = 1 := by
  have hcount : ∀ id, links.countP (·.2 = id) = (links.map (·.2)).count id := by
    intro id
    rw [List.count, List.countP_map]
    rfl
  have hmem : ∀ id, id ∈ links.map (·.2) ↔ ∃ parent, (parent, id) ∈ links := by simp
  constructor
  · intro hperm
    obtain ⟨hfree, hnodup⟩ := List.nodup_cons.mp (hperm.nodup_iff.mpr List.nodup_range)
    refine ⟨fun parent hparent => hfree ((hmem root).mpr ⟨parent, hparent⟩), fun id hid hne => ?_⟩
    have := hperm.mem_iff.mpr (List.mem_range.mpr hid)
    rw [hcount, List.count_eq_one_of_mem hnodup ((List.mem_cons.mp this).resolve_left hne)]
  · rintro ⟨hfree, honce⟩
    have hnot : root ∉ links.map (·.2) := by
      intro hroot_mem
      obtain ⟨parent, hparent⟩ := (hmem root).mp hroot_mem
      exact hfree parent hparent
    have hone : ∀ id ∈ links.map (·.2), (links.map (·.2)).count id = 1 := by
      intro id hid
      obtain ⟨parent, hparent⟩ := (hmem id).mp hid
      rw [← hcount]
      exact honce id (h.lt_size hparent).2 fun heq => hnot (heq ▸ hid)
    have hnodup := List.nodup_cons.mpr ⟨hnot, List.nodup_iff_count_eq_one.mpr hone⟩
    refine (List.perm_ext_iff_of_nodup hnodup List.nodup_range).mpr fun id => ?_
    rw [List.mem_cons, List.mem_range]
    constructor
    · rintro (rfl | hid)
      · exact hroot
      · obtain ⟨parent, hparent⟩ := (hmem id).mp hid
        exact (h.lt_size hparent).2
    · intro hid
      refine or_iff_not_imp_left.mpr fun hne => ?_
      have := honce id hid hne
      rw [hcount] at this
      exact List.count_pos_iff.mp (by omega)

/-! ### Arenas that were frozen -/

end Assembled

section
variable {a : Arena} {root : Nat} {t : CallTree}

theorem size_of_finish (hok : a.finish root = .ok t) : t.size = a.size := by
  rw [← (finish_eq_ok hok).1, CallTree.size_thaw]

theorem children_of_finish (hok : a.finish root = .ok t) : t.children = a.children := by
  rw [← (finish_eq_ok hok).1]
  exact funext fun id => (t.children_thaw id).symm

theorem reaches_of_finish (hok : a.finish root = .ok t) {id : Nat} (hid : id < a.size) :
    Relation.ReflTransGen (fun parent child => child ∈ a.children parent) root id := by
  obtain ⟨-, hroot, hfinished⟩ := finish_eq_ok hok
  have hmem : id ∈ t.bfs :=
    hfinished.bfs_perm.mem_iff.mpr (List.mem_range.mpr (size_of_finish hok ▸ hid))
  obtain ⟨above, habove, hreach⟩ := (walk_of_finish hok).exists_reaches hmem
  rwa [List.mem_singleton.mp habove, hroot, children_of_finish hok] at hreach

end

namespace Assembled
variable {links : List (Nat × Nat)} {a : Arena} {root parent child : Nat} {t : CallTree}

theorem perm_of_finish (h : Assembled links a) (hok : a.finish root = .ok t) :
    (root :: links.map (·.2)).Perm (List.range a.size) := by
  obtain ⟨-, hroot, hfinished⟩ := finish_eq_ok hok
  have hsize := size_of_finish hok
  have hnodup : t.bfs.Nodup := hfinished.bfs_perm.nodup_iff.mpr List.nodup_range
  have hlinks : (t.bfs.flatMap t.children).Perm (links.map (·.2)) := by
    rw [children_of_finish hok]
    refine h.flatMap_children_perm hnodup fun link hlink => ?_
    rw [hfinished.bfs_perm.mem_iff, List.mem_range, hsize]
    exact (h.lt_size hlink).1
  -- What the walk meets is the root and the children of what it meets.
  have hbfs : t.root :: t.bfs.flatMap t.children = t.bfs :=
    (walk_of_finish hok).eq_append_flatMap.symm
  rw [hroot] at hbfs
  calc
    List.Perm (root :: links.map (·.2)) (root :: t.bfs.flatMap t.children) := hlinks.symm.cons root
    List.Perm _ t.bfs := .of_eq hbfs
    List.Perm _ (List.range a.size) := hsize ▸ hfinished.bfs_perm

/-! ### Arenas that can be frozen -/

/-- Where nothing was attached twice, the parent links say the same as the child links. -/
theorem consistent (h : Assembled links a)
    (hperm : (root :: links.map (·.2)).Perm (List.range a.size)) : a.Consistent := by
  have hnodup := (List.nodup_cons.mp (hperm.nodup_iff.mpr List.nodup_range)).2
  refine ⟨fun parent => ?_, fun parent child => ?_⟩
  · rw [h.children_eq]
    exact hnodup.sublist (List.filter_sublist.map _)
  · rw [h.mem_children]
    refine ⟨fun hmem => ?_, h.mem_of_parent⟩
    cases hlink : a.parent child with
    | none => exact absurd (List.mem_map_of_mem hmem) (h.parent_eq_none_iff.mp hlink)
    | some above =>
      have := List.inj_on_of_nodup_map hnodup (h.mem_of_parent hlink) hmem rfl
      rw [(Prod.mk.inj this).1]

theorem exists_ranked (h : Assembled links a)
    (hperm : (root :: links.map (·.2)).Perm (List.range a.size))
    (hreach : ∀ id < a.size,
      Relation.ReflTransGen (fun parent child => child ∈ a.children parent) root id) :
    ∃ rank, a.Ranked root rank := by
  have hroot_lt : root < a.size := List.mem_range.mp (hperm.subset List.mem_cons_self)
  have hroot : a.parent root = none :=
    h.parent_eq_none_iff.mpr (List.nodup_cons.mp (hperm.nodup_iff.mpr List.nodup_range)).1
  have hdescent : ∀ id < a.size, ∃ steps, Descent a root id steps := by
    intro id hid
    induction hreach id hid with
    | refl => exact ⟨0, .root⟩
    | tail _ hchild ih =>
      obtain ⟨steps, hsteps⟩ := ih (h.lt_size (h.mem_children.mp hchild)).1
      exact ⟨steps + 1, .child hsteps (((h.consistent hperm).mem_children _ _).mp hchild)⟩
  choose! rank hrank using hdescent
  refine ⟨rank, hroot_lt, hroot, (hrank root hroot_lt).unique hroot .root, fun id hid hne => ?_⟩
  obtain ⟨parent, steps, hlink, hparent, hsteps⟩ := (hrank id hid).exists_parent hne
  have hlt := (h.lt_size (h.mem_of_parent hlink)).1
  exact ⟨parent, hlt, hlink, by rw [hsteps, hparent.unique hroot (hrank parent hlt)]⟩

theorem rooted (h : Assembled links a) (hok : a.finish root = .ok t) : t.Rooted :=
  (h.consistent (h.perm_of_finish hok)).rooted hok

end Assembled
end Arena

namespace CallTree

/-- Both kinds of links say the same, only the root has no parent, and levels count the steps from
the root. -/
structure Linked (t : CallTree) : Prop where
  nodup_children : ∀ parent, (t.children parent).Nodup
  mem_children : ∀ parent child, child ∈ t.children parent ↔ t.parent child = some parent
  parent_eq_none : ∀ id < t.size, t.parent id = none ↔ id = t.root
  level_root : t.level t.root = 0
  level_of_parent : ∀ parent child, t.parent child = some parent →
    t.level child = t.level parent + 1

theorem Rooted.linked {t : CallTree} (h : t.Rooted) : t.Linked where
  nodup_children := h.nodup_children
  mem_children _ _ := h.mem_children
  parent_eq_none _ hid := ⟨h.eq_root_of_parent hid, fun heq => heq ▸ h.parent_root⟩
  level_root := h.level_root
  level_of_parent _ _ := h.level_of_parent

end CallTree

namespace Arena
variable {links : List (Nat × Nat)} {a : Arena} {root : Nat}

/-- Freezing comes to an end, after at most as many turns as there are nodes.  It gives a tree if
nothing was attached above the root, every other node was attached once, and all can be reached from
the root.  The tree has the nodes of the arena, and their links agree.  Otherwise there is a cycle. -/
theorem finish_outcomes (h : Assembled links a) (hroot : root < a.size) :
    (((Search.start a root).run a a.size).turn? a = none ∧
      a.finish root = if (a.parent root).isSome then .error .cycle
        else ((Search.start a root).run a a.size).verdict a root) ∧
    ((∃ t, a.finish root = .ok t) ↔
      (∀ parent, (parent, root) ∉ links) ∧
      (∀ id < a.size, id ≠ root → links.countP (·.2 = id) = 1) ∧
      ∀ id < a.size, Relation.ReflTransGen (fun parent child => child ∈ a.children parent) root id) ∧
    (∀ t, a.finish root = .ok t → t.thaw = a ∧ t.root = root ∧ t.Linked) ∧
    ((¬ ∃ t, a.finish root = .ok t) → a.finish root = .error .cycle) := by
  refine ⟨⟨(search_ends a root).1, finish_eq_verdict a root⟩, ?_, fun t hok => ?_, fun hnot => ?_⟩
  · rw [← and_assoc, ← h.perm_range_iff hroot]
    constructor
    · rintro ⟨t, hok⟩
      exact ⟨h.perm_of_finish hok, fun _ => reaches_of_finish hok⟩
    · rintro ⟨hperm, hreach⟩
      obtain ⟨rank, hranked⟩ := h.exists_ranked hperm hreach
      exact (h.consistent hperm).exists_finish hranked
  · obtain ⟨hthaw, hroot_eq, -⟩ := finish_eq_ok hok
    exact ⟨hthaw, hroot_eq, (h.rooted hok).linked⟩
  · cases hanswer : a.finish root with
    | ok t => exact absurd ⟨t, hanswer⟩ hnot
    | error e => rw [finish_eq_error hanswer]

/-- Nodes are numbered from the leaves up.  When node 0 is attached again it forgets its first
parent, whose child it stays. -/
theorem finish_outcomes_attached_twice :
    let bare := ((({} : Arena).add { spanId := "c" }).add { spanId := "b" }).add { spanId := "r" }
    let tree := (((bare.add { spanId := "a" }).attach 1 0).attach 2 3).attach 2 1
    let twice := tree.attach 3 0
    Assembled [(1, 0), (2, 3), (2, 1)] tree ∧ 2 < tree.size ∧
      (∃ t, tree.finish 2 = .ok t ∧ t.thaw = tree ∧ t.Linked ∧ t.children 2 = [3, 1]) ∧
      Assembled [(1, 0), (2, 3), (2, 1), (3, 0)] twice ∧ 2 < twice.size ∧
      twice.parent 0 = some 3 ∧ twice.children 1 = [0] ∧ twice.finish 2 = .error .cycle := by
  intro bare tree twice
  have hbare : Assembled [] (bare.add { spanId := "a" }) :=
    (((Assembled.empty.add _).add _).add _).add _
  have htree : Assembled [(1, 0), (2, 3), (2, 1)] tree :=
    ((hbare.attach 1 0 (by decide) (by decide)).attach 2 3 (by decide) (by decide)).attach 2 1
      (by decide) (by decide)
  have htwice : Assembled [(1, 0), (2, 3), (2, 1), (3, 0)] twice :=
    htree.attach 3 0 (by decide) (by decide)
  obtain ⟨-, haccepts, hlinked, -⟩ := finish_outcomes htree (show 2 < tree.size by decide)
  obtain ⟨-, haccepts', -, hcycle⟩ := finish_outcomes htwice (show 2 < twice.size by decide)
  have hreach : ∀ id < tree.size,
      Relation.ReflTransGen (fun parent child => child ∈ tree.children parent) 2 id := by
    have h1 := Relation.ReflTransGen.single (r := fun p c => c ∈ tree.children p)
      (show 1 ∈ tree.children 2 by decide)
    intro id hid
    match id with
    | 0 => exact h1.tail (show 0 ∈ tree.children 1 by decide)
    | 1 => exact h1
    | 2 => exact .refl
    | 3 => exact .single (show 3 ∈ tree.children 2 by decide)
    | id + 4 => exact absurd hid (Nat.not_lt.mpr (Nat.le_add_left 4 id))
  obtain ⟨t, ht⟩ := haccepts.mpr ⟨by simp, by decide, hreach⟩
  obtain ⟨hthaw, -, hlinks⟩ := hlinked t ht
  have hchildren : t.children 2 = [3, 1] := by
    rw [← t.children_thaw, hthaw]
    decide
  refine ⟨htree, by decide, ⟨t, ht, hthaw, hlinks, hchildren⟩, htwice, by decide, by decide,
    by decide, hcycle fun hok => ?_⟩
  have honce := (haccepts'.mp hok).2.1 0 (by decide) (by decide)
  revert honce
  decide

end Arena
end CallTrace
