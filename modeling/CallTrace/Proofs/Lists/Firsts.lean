import Mathlib.Data.List.Induction

/-! # The first of each kind

`List.firsts f l` keeps of all elements of a list with one value of `f` the first.  Every value is
kept (`List.exists_mem_firsts`), and kept once (`List.nodup_map_firsts`).  Elements that only come
after another of their kind make no difference (`List.firsts_filter`). -/

namespace List
variable {α β γ : Type} [DecidableEq β] {f : α → β} {l l' : List α} {a : α}

def firsts (f : α → β) (l : List α) : List α :=
  l.foldl (fun kept a => if f a ∈ kept.map f then kept else kept ++ [a]) []

@[simp] theorem firsts_nil : firsts f [] = [] := rfl

theorem firsts_append_singleton : firsts f (l ++ [a])
    = if f a ∈ (firsts f l).map f then firsts f l else firsts f l ++ [a] := by
  simp [firsts]

theorem firsts_sublist : (firsts f l).Sublist l := by
  induction l using reverseRecOn with
  | nil => simp
  | append_singleton l a ih =>
    rw [firsts_append_singleton]
    split
    · exact ih.trans (sublist_append_left ..)
    · exact ih.append (Sublist.refl _)

theorem nodup_map_firsts : ((firsts f l).map f).Nodup := by
  induction l using reverseRecOn with
  | nil => simp
  | append_singleton l a ih =>
    rw [firsts_append_singleton]
    split
    · exact ih
    · next hnew =>
      rw [map_append, nodup_append]
      refine ⟨ih, by simp, ?_⟩
      rintro b hb _ hc rfl
      simp only [map_cons, map_nil, mem_singleton] at hc
      exact hnew (hc ▸ hb)

theorem mem_map_firsts {b : β} : b ∈ (firsts f l).map f ↔ b ∈ l.map f := by
  induction l using reverseRecOn with
  | nil => simp
  | append_singleton l a ih =>
    rw [firsts_append_singleton, map_append, mem_append, ← ih]
    split
    · next hold =>
      refine ⟨.inl, fun h => h.elim id fun hb => ?_⟩
      rw [map_singleton, mem_singleton] at hb
      exact hb ▸ hold
    · rw [map_append, mem_append]

/-- What is kept is what no element before it has the value of. -/
theorem mem_firsts_iff : a ∈ firsts f l ↔
    ∃ before after, l = before ++ a :: after ∧ ∀ b ∈ before, f b ≠ f a := by
  induction l using reverseRecOn with
  | nil => simp
  | append_singleton l c ih =>
    have hold : f c ∈ (firsts f l).map f ↔ ∃ b ∈ l, f b = f c := mem_map_firsts.trans mem_map
    constructor
    · intro ha
      have hcase : a ∈ firsts f l ∨ a = c ∧ ¬ f c ∈ (firsts f l).map f := by
        rw [firsts_append_singleton] at ha
        split at ha
        · exact .inl ha
        · next hnew => exact (mem_append.mp ha).imp_right fun ha => ⟨mem_singleton.mp ha, hnew⟩
      rcases hcase with ha | ⟨rfl, hnew⟩
      · obtain ⟨before, after, rfl, hbefore⟩ := ih.mp ha
        exact ⟨before, after ++ [c], by simp, hbefore⟩
      · exact ⟨l, [], rfl, fun b hb heq => hnew (hold.mpr ⟨b, hb, heq⟩)⟩
    · rintro ⟨before, after, hsplit, hbefore⟩
      rw [firsts_append_singleton]
      obtain rfl | ⟨after, d, rfl⟩ := eq_nil_or_concat after
      · obtain ⟨rfl, heq⟩ := append_inj' hsplit rfl
        obtain rfl := singleton_inj.mp heq
        rw [if_neg fun h => (hold.mp h).elim fun b hb => hbefore b hb.1 hb.2]
        simp
      · rw [concat_eq_append, ← cons_append, ← append_assoc] at hsplit
        have ha := ih.mpr ⟨before, after, (append_inj' hsplit rfl).1, hbefore⟩
        split
        · exact ha
        · exact mem_append_left _ ha

theorem exists_mem_firsts (ha : a ∈ l) : ∃ b ∈ firsts f l, f b = f a :=
  mem_map.mp (mem_map_firsts.mpr (mem_map_of_mem ha))

theorem firsts_append_of_disjoint (h : ∀ a ∈ l, ∀ b ∈ l', f a ≠ f b) :
    firsts f (l ++ l') = firsts f l ++ firsts f l' := by
  induction l' using reverseRecOn with
  | nil => simp
  | append_singleton l' a ih =>
    have hnot : f a ∉ (firsts f l).map f := by
      rw [mem_map_firsts, mem_map]
      rintro ⟨b, hb, heq⟩
      exact h b hb a (by simp) heq
    rw [← append_assoc, firsts_append_singleton, firsts_append_singleton,
      ih fun b hb c hc => h b hb c (mem_append_left _ hc)]
    simp only [map_append, mem_append, hnot, false_or]
    split
    · rfl
    · rw [append_assoc]

theorem firsts_map {g : γ → α} {f' : γ → β} {m : List γ} (h : ∀ c ∈ m, f (g c) = f' c) :
    firsts f (m.map g) = (firsts f' m).map g := by
  induction m using reverseRecOn with
  | nil => rfl
  | append_singleton m c ih =>
    have hm : ∀ d ∈ m, f (g d) = f' d := fun d hd => h d (mem_append_left _ hd)
    have hvalues : ((firsts f' m).map g).map f = (firsts f' m).map f' := by
      rw [map_map]
      exact map_congr_left fun d hd => hm d (firsts_sublist.subset hd)
    rw [map_append, map_singleton, firsts_append_singleton, firsts_append_singleton, ih hm, hvalues,
      h c (by simp)]
    split
    · rfl
    · rw [map_append, map_singleton]

/-- Elements of which an earlier one of the same kind is left can be left out. -/
theorem firsts_filter {p : α → Bool}
    (h : ∀ before a after, l = before ++ a :: after → p a = false →
      ∃ b ∈ before, p b = true ∧ f b = f a) : firsts f l = firsts f (l.filter p) := by
  induction l using reverseRecOn with
  | nil => rfl
  | append_singleton l a ih =>
    have hl : firsts f l = firsts f (l.filter p) := by
      refine ih fun before b after hsplit => h before b (after ++ [a]) ?_
      rw [hsplit, append_assoc, cons_append]
    rw [firsts_append_singleton, filter_append, hl]
    cases hp : p a with
    | true => rw [filter_cons_of_pos hp, filter_nil, firsts_append_singleton]
    | false =>
      rw [filter_cons_of_neg (by simp [hp]), filter_nil, append_nil, if_pos]
      obtain ⟨b, hb, hpb, heq⟩ := h l a [] rfl hp
      rw [mem_map_firsts, mem_map]
      exact ⟨b, mem_filter.mpr ⟨hb, hpb⟩, heq⟩

theorem firsts_eq_self (h : (l.map f).Nodup) : firsts f l = l := by
  induction l using reverseRecOn with
  | nil => rfl
  | append_singleton l a ih =>
    rw [map_append, nodup_append] at h
    rw [firsts_append_singleton, ih h.1, if_neg]
    exact fun hmem => h.2.2 _ hmem _ (by simp) rfl

end List
