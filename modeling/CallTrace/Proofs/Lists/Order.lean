import Mathlib.Data.List.Basic
import Mathlib.Data.List.Flatten
import Mathlib.Data.List.GetD

/-! # Order in lists

That `a` comes before `b` in a list without repetition is written `[a, b].Sublist l`.  Of two
elements one comes before the other (`List.sublist_or_sublist_swap`) and not the other way round
(`List.Nodup.not_sublist_swap`), and what an earlier element is replaced by comes before what a later
one is replaced by (`List.Sublist.pair_flatMap`). -/

namespace List
variable {α : Type} {l : List α} {a b : α}

/-! ### Earlier and later -/

theorem Nodup.not_sublist_swap (h : l.Nodup) (hab : [a, b].Sublist l) : ¬ [b, a].Sublist l := by
  induction l with
  | nil => simp at hab
  | cons c l ih =>
    obtain ⟨hc, hl⟩ := nodup_cons.mp h
    intro hba
    cases hab with
    | cons _ hab =>
      cases hba with
      | cons _ hba => exact ih hl hab hba
      | cons_cons _ hba => exact hc (hab.subset (by simp))
    | cons_cons _ hab =>
      cases hba with
      | cons _ hba => exact hc (hba.subset (by simp))
      | cons_cons _ hba => exact hc (singleton_sublist.mp hba)

theorem sublist_or_sublist_swap (ha : a ∈ l) (hb : b ∈ l) (hne : a ≠ b) :
    [a, b].Sublist l ∨ [b, a].Sublist l := by
  induction l with
  | nil => simp at ha
  | cons c l ih =>
    rcases mem_cons.mp ha with rfl | ha'
    · have hb' := (mem_cons.mp hb).resolve_left hne.symm
      exact .inl ((singleton_sublist.mpr hb').cons_cons a)
    · rcases mem_cons.mp hb with rfl | hb'
      · exact .inr ((singleton_sublist.mpr ha').cons_cons b)
      · exact (ih ha' hb').imp (.cons c) (.cons c)

theorem Nodup.mem_of_pair_sublist {before after : List α} (h : (before ++ b :: after).Nodup)
    (hab : [a, b].Sublist (before ++ b :: after)) : a ∈ before := by
  rcases mem_append.mp (hab.subset mem_cons_self) with ha | ha
  · exact ha
  · refine absurd ?_ (h.not_sublist_swap hab)
    rcases mem_cons.mp ha with rfl | ha
    · exact hab
    · exact ((singleton_sublist.mpr ha).cons_cons b).trans (sublist_append_right ..)

/-- What follows an earlier element comes before what follows a later one. -/
theorem Sublist.pair_flatMap {β : Type} {f : α → List β} {c d : β} (h : [a, b].Sublist l)
    (hc : c ∈ f a) (hd : d ∈ f b) : [c, d].Sublist (l.flatMap f) := by
  have hpair : [c, d].Sublist (f a ++ f b) :=
    (singleton_sublist.mpr hc).append (singleton_sublist.mpr hd)
  have hboth : (f a ++ f b).Sublist (l.flatMap f) := by simpa using h.flatMap f
  exact hpair.trans hboth

theorem sublist_flatMap_of_mem {β : Type} (f : α → List β) (h : a ∈ l) :
    (f a).Sublist (l.flatMap f) := by
  simpa using (singleton_sublist.mpr h).flatMap f

/-- The elements by their places. -/
theorem map_getD_range (l : List Nat) : (range l.length).map (fun k => l.getD k 0) = l := by
  apply ext_getElem
  · simp
  · intro i h₁ h₂
    simp [h₂]

/-! ### Splitting a list by a test -/

/-- Where a test that fails once fails from there on, the elements that pass come first. -/
theorem takeWhile_eq_filter_of_pairwise {p : α → Bool} (h : l.Pairwise fun a b => p b → p a) :
    l.takeWhile p = l.filter p := by
  induction l with
  | nil => rfl
  | cons a l ih =>
    obtain ⟨ha, hl⟩ := List.pairwise_cons.mp h
    by_cases hp : p a
    · rw [takeWhile_cons_of_pos hp, filter_cons_of_pos hp, ih hl]
    · rw [takeWhile_cons_of_neg hp, filter_cons_of_neg hp, eq_comm, filter_eq_nil_iff]
      exact fun b hb hpb => hp (ha b hb hpb)

theorem dropWhile_eq_filter_of_pairwise {p : α → Bool} (h : l.Pairwise fun a b => p b → p a) :
    l.dropWhile p = l.filter fun a => !p a := by
  induction l with
  | nil => rfl
  | cons a l ih =>
    obtain ⟨ha, hl⟩ := List.pairwise_cons.mp h
    by_cases hp : p a
    · rw [dropWhile_cons_of_pos hp, filter_cons_of_neg (by simp [hp]), ih hl]
    · rw [dropWhile_cons_of_neg hp, filter_cons_of_pos (by simp [hp]), eq_comm]
      congr 1
      rw [filter_eq_self]
      intro b hb
      have : ¬ p b := fun hpb => hp (ha b hb hpb)
      simpa using this

/-! ### Elements that are replaced by nothing -/

theorem flatMap_eq_flatMap_filter {β : Type} {f g : α → List β} {p : α → Bool}
    (hin : ∀ a ∈ l, p a = true → f a = g a) (hout : ∀ a ∈ l, p a = false → f a = []) :
    l.flatMap f = (l.filter p).flatMap g := by
  induction l with
  | nil => rfl
  | cons a l ih =>
    rw [flatMap_cons, ih (fun b hb => hin b (.tail _ hb)) fun b hb => hout b (.tail _ hb)]
    cases hp : p a with
    | true => rw [filter_cons_of_pos hp, flatMap_cons, hin a mem_cons_self hp]
    | false => rw [filter_cons_of_neg (by simp [hp]), hout a mem_cons_self hp, nil_append]

theorem flatMap_ite_eq {β : Type*} {l : List Nat} {k : Nat} (hnodup : l.Nodup) (hk : k ∈ l)
    (y : List β) :
    (l.flatMap fun i => if k = i then y else []) = y := by
  induction l with
  | nil => simp at hk
  | cons i l ih =>
    obtain ⟨hi, hl⟩ := nodup_cons.mp hnodup
    rw [flatMap_cons]
    by_cases hki : k = i
    · subst hki
      have hothers : (l.flatMap fun i => if k = i then y else []) = [] := by
        refine flatMap_eq_nil_iff.mpr fun j hj => if_neg ?_
        rintro rfl
        exact hi hj
      rw [if_pos rfl, hothers, append_nil]
    · rw [if_neg hki, nil_append, ih hl ((mem_cons.mp hk).resolve_left hki)]

end List
