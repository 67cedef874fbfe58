import CallTrace.Proofs.Reduction.Kept

/-! # Reduction is idempotent

A reduced tree has nothing left to cut or to collapse: all its leaves are representatives
(`Grafted.representatives_eq`), so a second reduction keeps all nodes.  What it might change is the
order of siblings.  It does not: the first reduction has put siblings in the order of their
shallowest leaves, and so siblings come in the order in which the first leaves below them are met
(`Grafted.exists_first_leaf`), which is the order that a second reduction puts them in
(`Grafted.filter_grafted_leaves`).

Reconstruction from the breadth-first list of the spans restores that order, so reducing a reduced
trace gives the very same trace (`Trace.reduce_idempotent`). -/

namespace CallTrace
namespace CallTree
variable {t u v w : CallTree} {f g e : Nat → Nat} {id limit a b : Nat}

/-! ### Trees with the same order -/

namespace Embeds
variable (h : Embeds f u t) (hu : u.Rooted) (ht : t.Rooted)
  (hchildren : ∀ id < u.size, (u.children id).map f = t.children (f id))
include h hu ht hchildren

theorem map_ends (limit : Nat) : (u.ends limit).map f = t.ends limit := by
  rw [ends, ends, ← h.map_bfs hu ht hchildren, List.filter_map]
  congr 1
  refine List.filter_congr fun id hid => ?_
  have hlt := hu.mem_bfs_iff.mp hid
  have hleaf : t.isLeaf (f id) = u.isLeaf id := by
    rw [isLeaf, isLeaf, ← hchildren id hlt, List.isEmpty_map]
  rw [Function.comp, h.level hu ht hlt, hleaf]

theorem map_representatives (limit : Nat) :
    (u.representatives limit).map f = t.representatives limit := by
  rw [representatives, representatives, ← h.map_ends hu ht hchildren]
  exact (List.firsts_map fun id hid => h.hashPath hu ht (hu.mem_ends.mp hid).1).symm

end Embeds

/-- Reconstruction from the spans breadth-first restores the order of siblings. -/
theorem Named.exists_ofSpans_spans (h : t.Named) (ht : t.Rooted) : ∃ u f,
    CallTree.ofSpans t.spans = .ok u ∧ Embeds f u t ∧ u.Rooted ∧
      ∀ id < u.size, (u.children id).map f = t.children (f id) := by
  obtain ⟨u, f, hu, hf, hrange⟩ := h.exists_ofSpans_of_perm ht ht.bfs_perm
  obtain ⟨hregular, -⟩ := ofSpans_eq_ok_iff.mp hu
  refine ⟨u, f, hu, hf, hregular.toRooted, fun id hid => ?_⟩
  rw [hf.map_children hregular hid, hrange, ht.filter_bfs (hf.lt id hid)]

/-! ### Reduced trees -/

namespace Grafted
variable (h : Grafted (t.representatives limit) f u t) (ht : t.Rooted)
include h ht

theorem level_le (hid : id < u.size) : u.level id ≤ limit := by
  obtain ⟨y, hy, hmem⟩ := mem_grafted.mp (h.mem_grafted_iff.mpr ⟨id, hid, rfl⟩)
  obtain ⟨hlt, hy⟩ := ht.mem_ends.mp (representatives_subset hy)
  have := ht.level_le_of_mem_path hlt hmem
  rw [← h.toEmbeds.level h.regular.toRooted ht hid]
  omega

theorem ends_eq : u.ends limit = u.leaves := by
  have hu := h.regular.toRooted
  refine List.filter_congr fun id hid => ?_
  have hlt := hu.mem_bfs_iff.mp hid
  have hle := h.level_le ht hlt
  have hlast : u.level id = limit → u.isLeaf id = true := fun hlevel => by
    refine List.isEmpty_iff.mpr (List.eq_nil_iff_forall_not_mem.mpr fun c hc => ?_)
    have hparent := hu.mem_children.mp hc
    have := hu.level_of_parent hparent
    have := h.level_le ht (Rooted.lt_size_of_parent hparent)
    omega
  rw [Bool.eq_iff_iff, decide_eq_true_eq]
  constructor
  · rintro (hlevel | ⟨-, hleaf⟩)
    · exact hlast hlevel
    · exact hleaf
  · intro hleaf
    rcases Nat.lt_or_eq_of_le hle with hlt | heq
    · exact .inr ⟨hlt, hleaf⟩
    · exact .inl heq

theorem representatives_eq : u.representatives limit = u.leaves := by
  rw [representatives, h.ends_eq ht]
  exact List.firsts_eq_self (h.nodup_hashPaths ht)

/-! ### The order of siblings -/

/-- The earlier of two siblings has a leaf below it that is as shallow as any below the later. -/
theorem exists_shallow_leaf (hid : id < u.size) (hab : [a, b].Sublist (u.children id)) :
    ∃ x ∈ u.leaves, a ∈ u.path x ∧ ∀ y ∈ u.leaves, b ∈ u.path y → u.level x ≤ u.level y := by
  have hu := h.regular.toRooted
  have hlt : ∀ c ∈ [a, b], c < u.size := fun c hc =>
    Rooted.lt_size_of_parent (hu.mem_children.mp (hab.subset hc))
  have hlevels : (t.representatives limit).Pairwise fun x y => t.level x ≤ t.level y :=
    (ht.pairwise_level_bfs.sublist List.filter_sublist).sublist List.firsts_sublist
  have hpairs := ht.pairwise_grafted (fun _ hx => ht.lt_size_of_mem_representatives hx) hlevels (f id)
  rw [← h.range_eq, ← h.toEmbeds.map_children h.regular hid, List.pairwise_map] at hpairs
  obtain ⟨x, hx, hax, hxy⟩ := List.pairwise_iff_forall_sublist.mp hpairs hab
  obtain ⟨x, hx_lt, rfl⟩ := h.mem_grafted_iff.mp (mem_grafted.mpr ⟨x, hx, t.mem_path_self x⟩)
  refine ⟨x, (h.mem_leaves_iff ht hx_lt).mpr hx,
    (h.toEmbeds.mem_path_iff hu ht hx_lt (hlt a (by simp))).mp hax, fun y hy hby => ?_⟩
  have hy_lt := (hu.mem_leaves.mp hy).1
  have hle := hxy (f y) ((h.mem_leaves_iff ht hy_lt).mp hy)
    ((h.toEmbeds.mem_path_iff hu ht hy_lt (hlt b (by simp))).mpr hby)
  rwa [h.toEmbeds.level hu ht hx_lt, h.toEmbeds.level hu ht hy_lt] at hle

/-- The earlier of two siblings has a leaf below it that is met before any below the later. -/
theorem exists_first_leaf (hid : id < u.size) (hab : [a, b].Sublist (u.children id)) :
    ∃ x ∈ u.leaves, a ∈ u.path x ∧ ∀ y ∈ u.leaves, b ∈ u.path y → [x, y].Sublist u.leaves := by
  have hu := h.regular.toRooted
  have hparent : ∀ c ∈ [a, b], u.parent c = some id := fun c hc =>
    hu.mem_children.mp (hab.subset hc)
  obtain ⟨x, hx, hax, hshallow⟩ := h.exists_shallow_leaf ht hid hab
  refine ⟨x, hx, hax, fun y hy hby => ?_⟩
  obtain ⟨hx_lt, hx_leaf⟩ := hu.mem_leaves.mp hx
  obtain ⟨hy_lt, hy_leaf⟩ := hu.mem_leaves.mp hy
  have hxy : [x, y].Sublist u.bfs := by
    rcases Nat.lt_or_eq_of_le (hshallow y hy hby) with hlt | heq
    · exact hu.sublist_bfs_of_level_lt hx_lt hy_lt hlt
    · refine hu.sublist_bfs_of_mem_path (hab.trans (hu.children_sublist_bfs hid)) ?_ hx_lt hy_lt
        hax hby heq
      rw [hu.level_of_parent (hparent a (by simp)), hu.level_of_parent (hparent b (by simp))]
  have hboth : [x, y].filter u.isLeaf = [x, y] := by simp [isLeaf, hx_leaf, hy_leaf]
  exact hboth ▸ hxy.filter u.isLeaf

/-- Grafting all leaves again leaves siblings in their order. -/
theorem filter_grafted_leaves (hid : id < u.size) :
    (u.grafted u.leaves).filter (fun c => u.parent c = some id) = u.children id := by
  have hu := h.regular.toRooted
  have hlt : ∀ x ∈ u.leaves, x < u.size := fun x hx => (hu.mem_leaves.mp hx).1
  have hnodup : u.leaves.Nodup := hu.nodup_bfs.sublist List.filter_sublist
  have hgrafted := hu.pairwise_grafted hlt
    (List.pairwise_iff_forall_sublist.mpr fun {x y} (hxy : [x, y].Sublist u.leaves) => hxy) id
  have hchildren := List.pairwise_iff_forall_sublist.mpr fun {a b} hab =>
    h.exists_first_leaf ht hid (a := a) (b := b) hab
  refine List.Perm.eq_of_pairwise ?_ hgrafted hchildren ?_
  · rintro a b - - ⟨x, hx, ha, hxy⟩ ⟨y, hy, hb, hyx⟩
    exact absurd (hyx x hx ha) (hnodup.not_sublist_swap (hxy y hy hb))
  · refine (List.perm_ext_iff_of_nodup ((hu.nodup_grafted hlt).sublist List.filter_sublist)
      (hu.nodup_children id)).mpr fun c => ?_
    rw [List.mem_filter, decide_eq_true_eq, hu.mem_children]
    exact ⟨And.right, fun hparent =>
      ⟨mem_grafted.mpr (hu.exists_leaf (Rooted.lt_size_of_parent hparent)), hparent⟩⟩

/-- A second reduction finds the same spans in the same order. -/
theorem spans_eq_of_reduced (hv : Embeds g v u) (hv_rooted : v.Rooted)
    (hchildren : ∀ id < v.size, (v.children id).map g = u.children (g id))
    (hw : Grafted (v.representatives limit) e w v) : w.spans = u.spans := by
  have hu := h.regular.toRooted
  have hkept := hw.embed hv hv_rooted hu fun _ hx => hv_rooted.lt_size_of_mem_representatives hx
  rw [hv.map_representatives hv_rooted hu hchildren, h.representatives_eq ht] at hkept
  have hw_children : ∀ id < w.size, (w.children id).map (g ∘ e) = u.children ((g ∘ e) id) :=
    fun id hid => by
      rw [hkept.toEmbeds.map_children hkept.regular hid, hkept.range_eq,
        h.filter_grafted_leaves ht (hkept.lt id hid)]
  rw [hkept.toEmbeds.spans_eq hkept.regular.toRooted,
    hkept.toEmbeds.map_bfs hkept.regular.toRooted hu hw_children]
  rfl

end Grafted
end CallTree

theorem Trace.reduce_idempotent {depthLimit : Nat} {t r : Trace}
    (h : t.reduce? depthLimit = .ok r) :
    r.reduce? depthLimit = .ok r ∧ r.reduce depthLimit = .reduced r 0 := by
  obtain ⟨tree, u, f, htree, hu, rfl⟩ := reduce?_eq_ok_iff.mp h
  obtain ⟨hregular, hnamed, -⟩ := CallTree.ofSpans_eq_ok_iff.mp htree
  have hu_named := hu.toEmbeds.named hu.regular.toRooted hnamed
  obtain ⟨v, g, hv, hg, hv_rooted, hchildren⟩ := hu_named.exists_ofSpans_spans hu.regular.toRooted
  rw [← spans_flatten u] at hv
  obtain ⟨w, e, hw, he⟩ := exists_reduce? depthLimit hv
  have hagain : u.flatten.reduce? depthLimit = .ok u.flatten := by
    rw [hw, CallTree.flatten, CallTree.flatten,
      hu.spans_eq_of_reduced hregular.toRooted hg hv_rooted hchildren he]
  refine ⟨hagain, ?_⟩
  rw [reduce, hagain]
  simp

/-- The first reduction puts a leaf before its sibling, and the second leaves it there. -/
theorem Trace.reduce_idempotent_leaf_first :
    let t := ofSpans [{ spanId := "r", operationHash := "R" },
      { spanId := "a", parentSpanId := "r", operationHash := "A" },
      { spanId := "b", parentSpanId := "a", operationHash := "B" },
      { spanId := "c", parentSpanId := "r", operationHash := "C" }]
    let r := ofSpans [{ spanId := "r", operationHash := "R" },
      { spanId := "c", parentSpanId := "r", operationHash := "C" },
      { spanId := "a", parentSpanId := "r", operationHash := "A" },
      { spanId := "b", parentSpanId := "a", operationHash := "B" }]
    t.reduce? 5 = .ok r ∧ r.reduce? 5 = .ok r ∧ r.reduce 5 = .reduced r 0 := by
  intro t r
  have h : t.reduce? 5 = .ok r := by
    rw [reduce?, spans_ofSpans, CallTree.ofSpans_of_passes (by decide)]
    decide +kernel
  exact ⟨h, reduce_idempotent h⟩

end CallTrace
