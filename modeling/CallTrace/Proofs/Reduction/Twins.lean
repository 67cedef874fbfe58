import CallTrace.Proofs.Reduction.Kept

/-! # Another iteration of a call

A tree with another iteration of a call `c` has a twin for `c` and for every node below it
(`CallTree.Iterated`).  The twins hang together as their nodes do, the twin of `c` is called by the
caller of `c`, and all of them are numbered after the other nodes.  So a twin is met later than its
node, at the same level and by the same operations (`Iterated.sublist_bfs`, `Iterated.level_twin`,
`Iterated.hashPath_twin`), and it is never a representative (`Iterated.representatives_eq`). -/

namespace CallTrace.CallTree
variable {t u : CallTree} {twin : Nat → Nat} {c j k parent limit : Nat}

/-! ### More nodes -/

/-- The tree of the first spans is embedded in the tree of all. -/
theorem Named.embeds_append {spans more : List Span} (hu : u.Named) (ht : t.Named) (hu' : u.Rooted)
    (ht' : t.Rooted) (hspans : u.thaw.spans = spans) (hmore : t.thaw.spans = spans ++ more) :
    Embeds id u t := by
  have hget : ∀ j < u.size, j < t.size ∧ t.span j = u.span j := fun j hj => by
    have hsome := (getElem?_eq_some_iff_span hspans).mpr ⟨hj, rfl⟩
    refine (getElem?_eq_some_iff_span hmore).mp ?_
    rw [List.getElem?_append_left (List.getElem?_eq_some_iff.mp hsome).1, hsome]
  exact hu.embeds ht hu' ht' (fun j hj => (hget j hj).1) fun j hj => (hget j hj).2.symm

namespace Embeds

theorem filter_children (h : Embeds id u t) (hu : u.Regular) (ht : t.Regular) (j : Nat) :
    (t.children j).filter (· < u.size) = u.children j := by
  refine ((ht.sorted j).sublist List.filter_sublist).eq_of_mem_iff (hu.sorted j) fun b => ?_
  rw [List.mem_filter, decide_eq_true_eq, ht.mem_children, hu.mem_children]
  constructor
  · rintro ⟨hparent, hb⟩
    have hlink := h.parent b hb
    rw [Option.map_id, id, id, hparent] at hlink
    exact hlink.symm
  · intro hparent
    have hb := Rooted.lt_size_of_parent hparent
    have hlink := h.parent b hb
    rw [Option.map_id, id, id, hparent] at hlink
    exact ⟨hlink, hb⟩

/-- The nodes of the smaller tree are met in the same order. -/
theorem filter_bfs (h : Embeds id u t) (hu : u.Regular) (ht : t.Regular) :
    t.bfs.filter (· < u.size) = u.bfs := by
  have hwalk : Walk u.children ([t.root].filter (· < u.size)) (t.bfs.filter (· < u.size)) := by
    refine ht.walk.filter (fun j _ _ => h.filter_children hu ht j) fun j _ hj => ?_
    · refine List.filter_eq_nil_iff.mpr fun b hb hlt => of_decide_eq_false hj ?_
      have hlink := h.parent b (of_decide_eq_true hlt)
      rw [Option.map_id, id, id, ht.mem_children.mp hb] at hlink
      exact hu.parent_lt hlink.symm
  have hroot : [t.root].filter (· < u.size) = [u.root] := by
    rw [← h.root, List.filter_cons_of_pos (by simpa using hu.root_lt)]
    rfl
  exact (hroot ▸ hwalk).unique hu.walk

end Embeds

/-- `t` is `u` with another iteration of the call `c`, which consists of the twins of the nodes
below `c`. -/
structure Iterated (twin : Nat → Nat) (c : Nat) (u t : CallTree) : Prop extends Embeds id u t where
  new : ∀ j < u.size, c ∈ u.path j → u.size ≤ twin j
  exists_node : ∀ k < t.size, u.size ≤ k → ∃ j < u.size, c ∈ u.path j ∧ twin j = k
  top : ∃ parent, u.parent c = some parent ∧ t.parent (twin c) = some parent
  call : ∀ j parent, u.parent j = some parent → c ∈ u.path parent →
    t.parent (twin j) = some (twin parent)
  operation : ∀ j < u.size, c ∈ u.path j →
    (t.span (twin j)).operationHash = (u.span j).operationHash

namespace Iterated
variable (h : Iterated twin c u t)
include h

theorem parent_eq (hj : j < u.size) : t.parent j = u.parent j := by
  simpa using h.parent j hj

theorem span_eq (hj : j < u.size) : t.span j = u.span j := (h.span j hj).symm

/-- A twin is called by the caller of `c` or by another twin. -/
theorem parent_new (hu : u.Rooted) (hk : t.parent k = some parent) (hnew : u.size ≤ k) :
    u.parent c = some parent ∨ u.size ≤ parent := by
  obtain ⟨j, hj, hc, rfl⟩ := h.exists_node k (Rooted.lt_size_of_parent hk) hnew
  by_cases hcj : c = j
  · subst hcj
    obtain ⟨p, hp, htop⟩ := h.top
    obtain rfl := Option.some.inj (htop.symm.trans hk)
    exact .inl hp
  · obtain ⟨p, hp, hcp⟩ := hu.mem_path_of_ne hc hcj hj
    obtain rfl := Option.some.inj ((h.call j p hp hcp).symm.trans hk)
    exact .inr (h.new p (hu.parent_lt hp) hcp)

variable (hu : u.Regular) (ht : t.Regular)
include hu ht

/-- No leaf gets a child. -/
theorem children_eq_nil_iff (hj : j < u.size) : t.children j = [] ↔ u.children j = [] := by
  constructor
  · intro hleaf
    rw [← h.toEmbeds.filter_children hu ht j, hleaf, List.filter_nil]
  · refine fun hleaf => List.eq_nil_iff_forall_not_mem.mpr fun k hk => ?_
    have hk := ht.mem_children.mp hk
    have hnone : ∀ b, u.parent b ≠ some j := fun b hb => by
      have := hu.mem_children.mpr hb
      simp [hleaf] at this
    by_cases hnew : u.size ≤ k
    · rcases h.parent_new hu.toRooted hk hnew with hparent | hle
      · exact hnone c hparent
      · omega
    · rw [h.parent_eq (by omega)] at hk
      exact hnone k hk

/-! ### Twins -/

/-- A twin is reached through the twin of `c` by the same operations as its node. -/
theorem twin_spec (hj : j < u.size) (hc : c ∈ u.path j) :
    twin c ∈ t.path (twin j) ∧ t.level (twin j) = t.level j ∧
      t.hashPath (twin j) = t.hashPath j := by
  have operation : ∀ j < u.size, c ∈ u.path j →
      (t.span (twin j)).operationHash = (t.span j).operationHash := fun j hj hc => by
    rw [h.operation j hj hc, h.span_eq hj]
  refine hu.induction_below (motive := fun j => twin c ∈ t.path (twin j) ∧
    t.level (twin j) = t.level j ∧ t.hashPath (twin j) = t.hashPath j) ?_ ?_ hj hc
  · obtain ⟨p, hp, htop⟩ := h.top
    have hlt := Rooted.lt_size_of_parent hp
    have hp' : t.parent c = some p := (h.parent_eq hlt).trans hp
    refine ⟨t.mem_path_self _, ?_, ?_⟩
    · rw [ht.level_of_parent htop, ht.level_of_parent hp']
    · rw [ht.hashPath_of_parent htop, ht.hashPath_of_parent hp',
        operation c hlt (u.mem_path_self c)]
  · rintro child parent hparent hc ⟨hpath, hlevel, hhash⟩
    have hlt := Rooted.lt_size_of_parent hparent
    have hchild : t.parent child = some parent := (h.parent_eq hlt).trans hparent
    have htwin := h.call child parent hparent hc
    refine ⟨?_, ?_, ?_⟩
    · rw [ht.path_of_parent htwin]
      exact .tail _ hpath
    · rw [ht.level_of_parent htwin, ht.level_of_parent hchild, hlevel]
    · rw [ht.hashPath_of_parent htwin, ht.hashPath_of_parent hchild, hhash,
        operation child hlt (by rw [hu.path_of_parent hparent]; exact .tail _ hc)]

omit ht in
theorem twin_lt (hj : j < u.size) (hc : c ∈ u.path j) : twin j < t.size := by
  by_cases hcj : c = j
  · subst hcj
    obtain ⟨p, -, htop⟩ := h.top
    exact Rooted.lt_size_of_parent htop
  · obtain ⟨p, hp, hcp⟩ := hu.mem_path_of_ne hc hcj hj
    exact Rooted.lt_size_of_parent (h.call j p hp hcp)

/-- A twin is met after its node. -/
theorem sublist_bfs (hj : j < u.size) (hc : c ∈ u.path j) : [j, twin j].Sublist t.bfs := by
  obtain ⟨p, hp, htop⟩ := h.top
  have hlt := Rooted.lt_size_of_parent hp
  have hp' : t.parent c = some p := (h.parent_eq hlt).trans hp
  have hnew := h.new c hlt (u.mem_path_self c)
  have hsiblings : [c, twin c].Sublist (t.children p) := by
    refine (List.sublist_or_sublist_swap (ht.mem_children.mpr hp') (ht.mem_children.mpr htop)
      (by omega)).resolve_right fun hswap => ?_
    have := List.pairwise_iff_forall_sublist.mp (ht.sorted p) hswap
    omega
  obtain ⟨hpath, hlevel, -⟩ := h.twin_spec hu ht hj hc
  have hpath' : c ∈ t.path j :=
    (h.toEmbeds.mem_path_iff hu.toRooted ht.toRooted hj hlt).mpr hc
  refine ht.sublist_bfs_of_mem_path (hsiblings.trans (ht.children_sublist_bfs (ht.parent_lt hp')))
    ?_ (h.lt j hj) (h.twin_lt hu hj hc) hpath' hpath hlevel.symm
  rw [ht.level_of_parent hp', ht.level_of_parent htop]

theorem children_twin (hj : j < u.size) (hc : c ∈ u.path j) (hleaf : t.children (twin j) = []) :
    t.children j = [] := by
  rw [h.children_eq_nil_iff hu ht hj]
  refine List.eq_nil_iff_forall_not_mem.mpr fun b hb => ?_
  have := ht.mem_children.mpr (h.call b j (hu.mem_children.mp hb) hc)
  simp [hleaf] at this

/-! ### Representatives -/

theorem filter_ends (limit : Nat) : (t.ends limit).filter (· < u.size) = u.ends limit := by
  rw [ends, ends, List.filter_filter, ← h.toEmbeds.filter_bfs hu ht, List.filter_filter]
  refine List.filter_congr fun j _ => ?_
  by_cases hj : j < u.size
  · have hlevel : t.level j = u.level j := h.toEmbeds.level hu.toRooted ht.toRooted hj
    have hleaf : t.isLeaf j = u.isLeaf j := by
      rw [Bool.eq_iff_iff, isLeaf, isLeaf, List.isEmpty_iff, List.isEmpty_iff,
        h.children_eq_nil_iff hu ht hj]
    simp [hj, hlevel, hleaf]
  · simp [hj]

/-- Twins are no representatives, as their nodes come before them. -/
theorem representatives_eq (limit : Nat) : t.representatives limit = u.representatives limit := by
  have hredundant : ∀ before k after, t.ends limit = before ++ k :: after →
      decide (k < u.size) = false →
      ∃ j ∈ before, decide (j < u.size) = true ∧ t.hashPath j = t.hashPath k := by
    intro before k after hsplit hk
    have hnew := Nat.not_lt.mp (of_decide_eq_false hk)
    have hmem : k ∈ t.ends limit := hsplit ▸ by simp
    obtain ⟨hk_lt, hk_end⟩ := ht.mem_ends.mp hmem
    obtain ⟨j, hj, hc, rfl⟩ := h.exists_node k hk_lt hnew
    obtain ⟨-, hlevel, hhash⟩ := h.twin_spec hu ht hj hc
    have hj_mem : j ∈ t.ends limit := by
      refine ht.mem_ends.mpr ⟨h.lt j hj, ?_⟩
      rw [hlevel] at hk_end
      exact hk_end.imp_right fun hend => ⟨hend.1, h.children_twin hu ht hj hc hend.2⟩
    refine ⟨j, ?_, decide_eq_true hj, hhash.symm⟩
    -- both are ends, and they are met in this order
    have hends : [j, twin j].Sublist (t.ends limit) := by
      have hfilter := (h.sublist_bfs hu ht hj hc).filter
        fun id => decide (t.level id = limit ∨ t.level id < limit ∧ t.isLeaf id = true)
      rwa [List.filter_eq_self.mpr fun id hid => ?_] at hfilter
      rcases List.mem_pair.mp hid with rfl | rfl
      · exact (List.mem_filter.mp hj_mem).2
      · exact (List.mem_filter.mp hmem).2
    have hnodup : (t.ends limit).Nodup := ht.nodup_bfs.sublist List.filter_sublist
    rw [hsplit] at hends hnodup
    exact hnodup.mem_of_pair_sublist hends
  have hhash : ∀ j ∈ u.ends limit, t.hashPath (id j) = u.hashPath j := fun j hj =>
    h.toEmbeds.hashPath hu.toRooted ht.toRooted (hu.mem_ends.mp hj).1
  rw [representatives, List.firsts_filter hredundant, h.filter_ends hu ht, representatives]
  have := List.firsts_map hhash
  rwa [List.map_id, List.map_id] at this

/-- Another iteration changes nothing of what is kept. -/
theorem kept_eq (limit : Nat) : (t.grafted (t.representatives limit)).map t.span
    = (u.grafted (u.representatives limit)).map u.span := by
  have hlt : ∀ leaf ∈ u.representatives limit, leaf < u.size := fun leaf hleaf =>
    hu.lt_size_of_mem_representatives hleaf
  have hgrafted := h.toEmbeds.map_grafted hu.toRooted ht.toRooted hlt
  rw [List.map_id, List.map_id] at hgrafted
  rw [h.representatives_eq hu ht, ← hgrafted]
  refine List.map_congr_left fun j hj => h.span_eq ?_
  obtain ⟨leaf, hleaf, hpath⟩ := mem_grafted.mp hj
  exact hu.lt_size_of_mem_path (hlt leaf hleaf) hpath

end Iterated
end CallTrace.CallTree
