import CallTrace.Proofs.Tree.Layers
import Mathlib.Logic.Relation

/-! # Searching an arena with a queue

The levels below a root can also be found node by node (`Arena.Search`).  A queue holds the nodes
that were met, each with the level that it would get.  A turn enters the first of them and puts its
children at the end (`Search.turn?`); there is none if the queue is empty or its first node was
entered before.

Every turn enters a node that had no level (`Search.count_turn?`), so whatever the links are there
are no more turns than nodes.  The turns of a layer leave the next layer in the queue
(`Search.reaches_layer`), unless one of its nodes is refused (`Search.exists_refused`).  So the
search ends with the levels of the walk over layers (`search_ends`), and freezing an arena gives the
verdict of the search on it (`finish_eq_verdict`). -/

namespace CallTrace.Arena

/-- A search for levels under way. -/
structure Search where
  /-- The nodes to be entered, each with the level that it would get. -/
  queue : List (Nat × Nat)
  levels : Array (Option Nat)
  /-- How many nodes were entered. -/
  reached : Nat := 0
deriving DecidableEq, Repr

namespace Search

def start (a : Arena) (root : Nat) : Search where
  queue := [(root, 0)]
  levels := Array.replicate a.size none

/-- Enters the first node of the queue. -/
def turn? (a : Arena) (s : Search) : Option Search :=
  match s.queue with
  | [] => none
  | (id, level) :: queue =>
    if s.levels[id]? = some none then
      some {
        queue := queue ++ (a.children id).map (·, level + 1)
        levels := s.levels.setIfInBounds id (some level)
        reached := s.reached + 1 }
    else none

/-- Takes turns while there are any, but no more than so many. -/
def run (a : Arena) : Nat → Search → Search
  | 0, s => s
  | turns + 1, s =>
    match s.turn? a with
    | none => s
    | some s => s.run a turns

/-- What a search that is over says: every node was reached and none of them twice. -/
def verdict (a : Arena) (root : Nat) (s : Search) : Except InvalidTrace CallTree :=
  if s.queue = [] ∧ s.reached = a.size then .ok (a.frozen root s.levels) else .error .cycle

variable {a : Arena} {s s' : Search} {id level reached : Nat} {queue : List (Nat × Nat)}
  {levels levels' : Array (Option Nat)}

theorem turn?_of_fresh (h : levels[id]? = some none) :
    turn? a ⟨(id, level) :: queue, levels, reached⟩
      = some ⟨queue ++ (a.children id).map (·, level + 1), levels.setIfInBounds id (some level),
        reached + 1⟩ := by
  simp [turn?, h]

theorem turn?_of_used (h : levels[id]? ≠ some none) :
    turn? a ⟨(id, level) :: queue, levels, reached⟩ = none := by
  simp [turn?, h]

theorem turn?_eq_some (h : s.turn? a = some s') :
    ∃ id level queue, s.queue = (id, level) :: queue ∧ s.levels[id]? = some none ∧
      s' = ⟨queue ++ (a.children id).map (·, level + 1), s.levels.setIfInBounds id (some level),
        s.reached + 1⟩ := by
  unfold turn? at h
  split at h
  · cases h
  · next id level queue hqueue =>
    split at h
    · next hfresh => exact ⟨id, level, queue, hqueue, hfresh, (Option.some.inj h).symm⟩
    · cases h

/-! ### The number of turns -/

/-- A turn takes one from the nodes that have no level. -/
theorem count_turn? (h : s.turn? a = some s') :
    s'.reached = s.reached + 1 ∧ s'.levels.count none + 1 = s.levels.count none := by
  obtain ⟨id, level, queue, -, hfresh, rfl⟩ := turn?_eq_some h
  obtain ⟨hlt, hget⟩ := Array.getElem?_eq_some_iff.mp hfresh
  have hpos : 0 < s.levels.count none := Array.count_pos_iff.mpr (hget ▸ Array.getElem_mem hlt)
  refine ⟨rfl, ?_⟩
  rw [Array.setIfInBounds, dif_pos hlt, Array.count_set hlt, hget, if_pos BEq.rfl, if_neg (by simp)]
  omega

/-- What turns lead to. -/
def Reaches (a : Arena) : Search → Search → Prop :=
  Relation.ReflTransGen fun s s' => s.turn? a = some s'

theorem Reaches.refl (a : Arena) (s : Search) : Reaches a s s := Relation.ReflTransGen.refl

theorem Reaches.trans {s₁ s₂ s₃ : Search} (h : Reaches a s₁ s₂) (h' : Reaches a s₂ s₃) :
    Reaches a s₁ s₃ := Relation.ReflTransGen.trans h h'

theorem Reaches.enter (hfresh : levels[id]? = some none)
    (h : Reaches a ⟨queue ++ (a.children id).map (·, level + 1),
      levels.setIfInBounds id (some level), reached + 1⟩ s) :
    Reaches a ⟨(id, level) :: queue, levels, reached⟩ s :=
  Relation.ReflTransGen.head (turn?_of_fresh hfresh) h

theorem Reaches.count (h : Reaches a s s') :
    s'.reached + s'.levels.count none = s.reached + s.levels.count none := by
  induction h with
  | refl => rfl
  | tail _ hturn ih =>
    obtain ⟨hreached, hcount⟩ := count_turn? hturn
    omega

/-- Where turns lead to an end, so does running. -/
theorem Reaches.run_eq (h : Reaches a s s') (hend : s'.turn? a = none) {turns : Nat}
    (hturns : s.levels.count none ≤ turns) : s.run a turns = s' := by
  induction h using Relation.ReflTransGen.head_induction_on generalizing turns with
  | refl => cases turns <;> simp [run, hend]
  | @head s s₁ hturn _ ih =>
    obtain ⟨-, hcount⟩ := count_turn? hturn
    obtain ⟨turns, rfl⟩ : ∃ n, turns = n + 1 := ⟨turns - 1, by omega⟩
    rw [run, hturn]
    exact ih (by omega)

/-! ### Layers -/

/-- The turns of a layer leave the next one in the queue. -/
theorem reaches_layer {layer : List Nat} (h : enterLayer? level layer levels = some levels')
    (a : Arena) (queue : List (Nat × Nat)) (reached : Nat) :
    Reaches a ⟨layer.map (·, level) ++ queue, levels, reached⟩
      ⟨queue ++ (layer.flatMap a.children).map (·, level + 1), levels', reached + layer.length⟩ := by
  induction layer generalizing queue levels reached with
  | nil =>
    obtain rfl : levels = levels' := by simpa [enterLayer?] using h
    simpa using Reaches.refl a _
  | cons id layer ih =>
    rw [enterLayer?] at h
    split at h
    · next hfresh =>
      have hrest := ih h (queue ++ (a.children id).map (·, level + 1)) (reached + 1)
      refine .enter hfresh ?_
      simpa [Nat.add_assoc, Nat.add_comm 1] using hrest
    · cases h

/-- A layer that cannot be entered is where the search ends. -/
theorem exists_refused {layer : List Nat} (h : enterLayer? level layer levels = none) (a : Arena)
    (queue : List (Nat × Nat)) (reached : Nat) :
    ∃ s, Reaches a ⟨layer.map (·, level) ++ queue, levels, reached⟩ s ∧ s.turn? a = none ∧
      s.queue ≠ [] := by
  induction layer generalizing queue levels reached with
  | nil => simp [enterLayer?] at h
  | cons id layer ih =>
    rw [enterLayer?] at h
    split at h
    · next hfresh =>
      obtain ⟨s, hs, hend, hqueue⟩ :=
        ih h (queue ++ (a.children id).map (·, level + 1)) (reached + 1)
      exact ⟨s, .enter hfresh (by simpa using hs), hend, hqueue⟩
    · next hused => exact ⟨_, .refl a _, turn?_of_used hused, by simp⟩

/-- A walk over layers is a search that ends. -/
theorem exists_end (a : Arena) {count : Nat} (hcount : levels.count none ≤ count)
    (level reached : Nat) (layer : List Nat) :
    ∃ s, Reaches a ⟨layer.map (·, level), levels, reached⟩ s ∧ s.turn? a = none ∧
      a.walk? count level layer levels = if s.queue = [] then some s.levels else none := by
  induction count generalizing level reached layer levels with
  | zero =>
    cases layer with
    | nil => exact ⟨_, .refl a _, rfl, by simp [walk?]⟩
    | cons id layer =>
      -- No node is left without a level, so the next one is refused.
      have hused : levels[id]? ≠ some none := fun hfresh => by
        have := Array.count_pos_iff.mpr (Array.mem_of_getElem? hfresh)
        omega
      exact ⟨_, .refl a _, turn?_of_used hused, by simp [walk?]⟩
  | succ count ih =>
    cases layer with
    | nil => exact ⟨_, .refl a _, rfl, by simp [walk?]⟩
    | cons id layer =>
      cases henter : enterLayer? level (id :: layer) levels with
      | none =>
        obtain ⟨s, hs, hend, hqueue⟩ := exists_refused henter a [] reached
        refine ⟨s, by simpa using hs, hend, ?_⟩
        rw [walk?, henter, if_neg hqueue]
        rfl
      | some levels' =>
        have hlayer := reaches_layer henter a [] reached
        rw [List.append_nil, List.nil_append] at hlayer
        have hleft : levels'.count none ≤ count := by
          have := hlayer.count
          simp only [List.length_cons] at this
          omega
        obtain ⟨s, hs, hend, hwalk⟩ := ih hleft (level + 1) (reached + (id :: layer).length)
          ((id :: layer).flatMap a.children)
        exact ⟨s, hlayer.trans hs, hend, by rw [walk?, henter]; exact hwalk⟩

end Search

theorem all_isSome_iff_count_none {levels : Array (Option Nat)} :
    levels.all Option.isSome = true ↔ levels.count none = 0 := by
  rw [Array.count_eq_zero, Array.all_eq_true_iff_forall_mem]
  refine ⟨fun h hmem => by simpa using h none hmem, fun h level hlevel => ?_⟩
  cases level with
  | none => exact absurd hlevel h
  | some level => rfl

/-- The search below a root ends, after at most as many turns as there are nodes, with the levels of
the walk. -/
theorem search_ends (a : Arena) (root : Nat) :
    let s := (Search.start a root).run a a.size
    s.turn? a = none ∧ s.reached + s.levels.count none = a.size ∧
      a.levels? root = if s.queue = [] then some s.levels else none := by
  have hfresh : (Search.start a root).levels.count none = a.size := by simp [Search.start]
  obtain ⟨s, hs, hend, hlevels⟩ := Search.exists_end a (Nat.le_of_eq hfresh) 0 0 [root]
  change Search.Reaches a (.start a root) s at hs
  rw [hs.run_eq hend (Nat.le_of_eq hfresh)]
  refine ⟨hend, ?_, hlevels⟩
  rw [hs.count, hfresh]
  exact Nat.zero_add a.size

/-- Freezing an arena gives the verdict of the search, unless the root has a parent. -/
theorem finish_eq_verdict (a : Arena) (root : Nat) :
    a.finish root = if (a.parent root).isSome then .error .cycle
      else ((Search.start a root).run a a.size).verdict a root := by
  obtain ⟨-, hreached, hlevels⟩ := search_ends a root
  generalize (Search.start a root).run a a.size = s at *
  have hall : s.levels.all Option.isSome = true ↔ s.reached = a.size := by
    rw [all_isSome_iff_count_none]
    omega
  unfold finish Search.verdict
  rw [hlevels]
  by_cases hqueue : s.queue = []
  · simp only [hqueue, if_true, true_and, hall]
    rfl
  · simp [hqueue]

end CallTrace.Arena
