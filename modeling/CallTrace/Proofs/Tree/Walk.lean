import CallTrace.Proofs.Lists.Order
import Mathlib.Logic.Relation

/-! # Walking down layer by layer

`Walk next layer nodes` says that going down from a layer, each element followed by `next`, meets
`nodes` and comes to an end.  Where a walk ends it has one outcome (`Walk.unique`), which consists of
the layer and of what follows each of its own elements (`Walk.eq_append_flatMap`), and all that it
meets can be reached from the layer (`Walk.exists_reaches`).  Walks can be renamed (`Walk.map`) and
cut down to a part that is never entered again once it is left (`Walk.filter`). -/

namespace CallTrace

inductive Walk {α : Type} (next : α → List α) : List α → List α → Prop
  | done : Walk next [] []
  | layer {l rest} : Walk next (l.flatMap next) rest → Walk next l (l ++ rest)

namespace Walk
variable {α β : Type} {next : α → List α} {l nodes nodes' : List α}

theorem eq_nil (h : Walk next [] nodes) : nodes = [] := by
  generalize hl : ([] : List α) = l at h
  induction h with
  | done => rfl
  | layer _ ih =>
    subst hl
    simpa using ih rfl

theorem unique (h : Walk next l nodes) (h' : Walk next l nodes') : nodes = nodes' := by
  induction h generalizing nodes' with
  | done => exact h'.eq_nil.symm
  | layer h ih =>
    cases h' with
    | done => simpa using h.eq_nil
    | layer h' => rw [ih h']

theorem eq_append_flatMap (h : Walk next l nodes) : nodes = l ++ nodes.flatMap next := by
  induction h with
  | done => rfl
  | layer _ ih => rw [List.flatMap_append, ← ih]

/-- What a walk meets can be reached from its first layer. -/
theorem exists_reaches (h : Walk next l nodes) {b : α} (hb : b ∈ nodes) :
    ∃ a ∈ l, Relation.ReflTransGen (fun a b => b ∈ next a) a b := by
  induction h with
  | done => simp at hb
  | layer _ ih =>
    rcases List.mem_append.mp hb with hb | hb
    · exact ⟨b, hb, .refl⟩
    · obtain ⟨c, hc, hreach⟩ := ih hb
      obtain ⟨a, ha, hnext⟩ := List.mem_flatMap.mp hc
      exact ⟨a, ha, .head hnext hreach⟩

theorem map {next' : β → List β} {f : α → β} (h : Walk next l nodes)
    (hnext : ∀ a ∈ nodes, (next a).map f = next' (f a)) :
    Walk next' (l.map f) (nodes.map f) := by
  induction h with
  | done => exact .done
  | @layer l rest _ ih =>
    have hl : (l.flatMap next).map f = (l.map f).flatMap next' := by
      rw [List.map_flatMap, List.flatMap_map]
      exact List.flatMap_congr fun a ha => hnext a (List.mem_append_left _ ha)
    rw [List.map_append]
    apply layer
    rw [← hl]
    exact ih fun a ha => hnext a (List.mem_append_right _ ha)

/-- Cuts a walk down to a part that is left for good. -/
theorem filter {next' : α → List α} {p : α → Bool} (h : Walk next l nodes)
    (hin : ∀ a ∈ nodes, p a = true → (next a).filter p = next' a)
    (hout : ∀ a ∈ nodes, p a = false → (next a).filter p = []) :
    Walk next' (l.filter p) (nodes.filter p) := by
  induction h with
  | done => exact .done
  | @layer l rest _ ih =>
    have hl : (l.flatMap next).filter p = (l.filter p).flatMap next' := by
      rw [List.filter_flatMap]
      exact List.flatMap_eq_flatMap_filter (fun a ha => hin a (List.mem_append_left _ ha))
        fun a ha => hout a (List.mem_append_left _ ha)
    rw [List.filter_append]
    apply layer
    rw [← hl]
    exact ih (fun a ha => hin a (List.mem_append_right _ ha))
      fun a ha => hout a (List.mem_append_right _ ha)

end Walk
end CallTrace
