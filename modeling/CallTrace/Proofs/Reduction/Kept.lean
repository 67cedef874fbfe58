import CallTrace.Proofs.Tree.Collapse
import CallTrace.Proofs.Tree.Reconstruction
import CallTrace.Proofs.Tree.Truncation
import CallTrace.Reduction

/-! # What reduction keeps

A reduced tree consists of the nodes above its representatives: the ends of the paths that are cut
at the limit, and of those with the same operations above them only the first
(`CallTree.representatives`).  No stage after reconstruction can fail (`Rooted.exists_reduced`,
`Trace.exists_reduce?`).

No end is above another one, so the leaves of the reduced tree are the representatives
(`Grafted.mem_leaves_iff`).  The reduced tree is determined by the spans of the nodes that are kept
(`Grafted.eq_of_spans`). -/

namespace CallTrace
namespace CallTree
variable {t t' u u' v : CallTree} {f f' g : Nat → Nat} {id x y limit : Nat} {leaves leaves' : List Nat}

/-- Of the ends with the same operations above them the first. -/
def representatives (t : CallTree) (limit : Nat) : List Nat := (t.ends limit).firsts t.hashPath

/-! ### Ends -/

theorem Rooted.mem_ends (h : t.Rooted) : x ∈ t.ends limit ↔
    x < t.size ∧ (t.level x = limit ∨ t.level x < limit ∧ t.children x = []) := by
  simp [ends, h.mem_bfs_iff, isLeaf]

theorem Rooted.eq_of_mem_path_of_mem_ends (h : t.Rooted) (hx : x ∈ t.ends limit)
    (hy : y ∈ t.ends limit) (hmem : x ∈ t.path y) : x = y := by
  obtain ⟨-, hx⟩ := h.mem_ends.mp hx
  obtain ⟨hlt, hy⟩ := h.mem_ends.mp hy
  have hle := h.level_le_of_mem_path hlt hmem
  rcases hx with hx | ⟨-, hleaf⟩
  · exact h.eq_of_mem_path hlt hmem (t.mem_path_self y) (by omega)
  · exact h.eq_of_mem_path_of_leaf hleaf hmem hlt

theorem representatives_subset : t.representatives limit ⊆ t.ends limit := List.firsts_sublist.subset

theorem nodup_hashPath_representatives (t : CallTree) (limit : Nat) :
    ((t.representatives limit).map t.hashPath).Nodup := List.nodup_map_firsts

theorem Rooted.lt_size_of_mem_representatives (h : t.Rooted) (hx : x ∈ t.representatives limit) :
    x < t.size := (h.mem_ends.mp (representatives_subset hx)).1

/-! ### The reduced tree -/

theorem Embeds.map_grafted (h : Embeds f u t) (hu : u.Rooted) (ht : t.Rooted)
    (hleaves : ∀ leaf ∈ leaves, leaf < u.size) :
    (u.grafted leaves).map f = t.grafted (leaves.map f) := by
  induction leaves using List.reverseRecOn with
  | nil => rfl
  | append_singleton leaves leaf ih =>
    have hold := fun j hj => hleaves j (List.mem_append_left _ hj)
    have hleaf := hleaves leaf (by simp)
    have hgrafted : ∀ j ∈ u.grafted leaves, j < u.size := fun j hj => by
      obtain ⟨l, hl, hmem⟩ := mem_grafted.mp hj
      exact hu.lt_size_of_mem_path (hold l hl) hmem
    rw [List.map_append, List.map_singleton, grafted_append_singleton, grafted_append_singleton,
      List.map_append, ih hold, h.path hu ht hleaf, List.filter_map]
    congr 2
    refine List.filter_congr fun j hj => decide_eq_decide.mpr (not_congr ?_)
    rw [← ih hold, List.mem_map]
    constructor
    · exact fun hmem => ⟨j, hmem, rfl⟩
    · rintro ⟨k, hk, heq⟩
      rwa [← h.inj k (hgrafted k hk) j (hu.lt_size_of_mem_path hleaf hj) heq]

/-- What is left of an embedded tree is left of the tree around it. -/
theorem Grafted.embed (h : Grafted leaves f v u) (hg : Embeds g u t) (hu : u.Rooted) (ht : t.Rooted)
    (hleaves : ∀ leaf ∈ leaves, leaf < u.size) : Grafted (leaves.map g) (g ∘ f) v t where
  toEmbeds := hg.trans h.toEmbeds
  regular := h.regular
  range_eq := by rw [← List.map_map, h.range_eq, hg.map_grafted hu ht hleaves]

/-- The stages after reconstruction cannot fail. -/
theorem Rooted.exists_reduced (h : t.Rooted) (limit : Nat) : ∃ top u f,
    t.truncate limit = .ok top ∧ top.collapse = .ok u ∧
      Grafted (t.representatives limit) f u t := by
  obtain ⟨top, g, htop, hg⟩ := h.exists_truncate limit
  have top_rooted := hg.regular.toRooted
  obtain ⟨u, f, hu, hf⟩ := top_rooted.exists_collapse
  have hlt : ∀ id ∈ top.leaves.firsts top.hashPath, id < top.size := fun id hid =>
    (top_rooted.mem_leaves.mp (List.firsts_sublist.subset hid)).1
  have hkept : (top.leaves.firsts top.hashPath).map g = t.representatives limit := by
    rw [representatives, ← hg.map_leaves h]
    exact (List.firsts_map fun id hid =>
      hg.hashPath top_rooted h (top_rooted.mem_leaves.mp hid).1).symm
  exact ⟨top, u, g ∘ f, htop, hu, hkept ▸ hf.embed hg.toEmbeds top_rooted h hlt⟩

namespace Grafted
variable (h : Grafted leaves f u t)
include h

theorem mem_grafted_iff : x ∈ t.grafted leaves ↔ ∃ id < u.size, f id = x := by
  rw [← h.range_eq, List.mem_map]
  simp only [List.mem_range]

theorem mem_leaves (ht : t.Rooted) (hlt : ∀ x ∈ leaves, x < t.size)
    (hapart : ∀ x ∈ leaves, ∀ y ∈ leaves, x ∈ t.path y → x = y) (hid : id < u.size) :
    id ∈ u.leaves ↔ f id ∈ leaves := by
  have hu := h.regular.toRooted
  rw [hu.mem_leaves]
  constructor
  · rintro ⟨-, hleaf⟩
    obtain ⟨y, hy, hmem⟩ := mem_grafted.mp (h.mem_grafted_iff.mpr ⟨id, hid, rfl⟩)
    obtain ⟨k, hk, rfl⟩ := h.mem_grafted_iff.mp (mem_grafted.mpr ⟨y, hy, t.mem_path_self y⟩)
    rw [h.toEmbeds.mem_path_iff hu ht hk hid] at hmem
    rwa [hu.eq_of_mem_path_of_leaf hleaf hmem hk]
  · refine fun hmem => ⟨hid, List.eq_nil_iff_forall_not_mem.mpr fun c hc => ?_⟩
    have hparent := hu.mem_children.mp hc
    have hc_lt := Rooted.lt_size_of_parent hparent
    have hlink : t.parent (f c) = some (f id) := by rw [h.parent c hc_lt, hparent, Option.map_some]
    obtain ⟨y, hy, hbelow⟩ := mem_grafted.mp (h.mem_grafted_iff.mpr ⟨c, hc_lt, rfl⟩)
    have heq := hapart _ hmem y hy (ht.parent_mem_path (hlt y hy) hbelow hlink)
    exact ht.not_mem_path_parent hlink (heq ▸ hbelow)

theorem eq_of_spans (h' : Grafted leaves' f' u' t') (ht : t.Named) (ht' : t'.Named)
    (hspans : (t.grafted leaves).map t.span = (t'.grafted leaves').map t'.span) : u = u' := by
  refine Named.eq_of_spans h.regular (h.toEmbeds.named h.regular.toRooted ht) h'.regular
    (h'.toEmbeds.named h'.regular.toRooted ht') ?_
  rw [h.toEmbeds.spans_thaw, h'.toEmbeds.spans_thaw, h.range_eq, h'.range_eq, hspans]

end Grafted

/-! ### Its leaves -/

namespace Grafted
variable (h : Grafted (t.representatives limit) f u t) (ht : t.Rooted)
include h ht

theorem mem_leaves_iff (hid : id < u.size) : id ∈ u.leaves ↔ f id ∈ t.representatives limit :=
  h.mem_leaves ht (fun _ hx => ht.lt_size_of_mem_representatives hx)
    (fun _ hx _ hy => ht.eq_of_mem_path_of_mem_ends (representatives_subset hx)
      (representatives_subset hy)) hid

/-- No two leaves are reached by the same operations. -/
theorem nodup_hashPaths : (u.leaves.map u.hashPath).Nodup := by
  have hu := h.regular.toRooted
  have hnodup : u.leaves.Nodup := hu.nodup_bfs.sublist List.filter_sublist
  refine hnodup.map_on fun x hx y hy heq => ?_
  have hx_lt := (hu.mem_leaves.mp hx).1
  have hy_lt := (hu.mem_leaves.mp hy).1
  rw [← h.toEmbeds.hashPath hu ht hx_lt, ← h.toEmbeds.hashPath hu ht hy_lt] at heq
  refine h.inj x hx_lt y hy_lt
    (List.inj_on_of_nodup_map (t.nodup_hashPath_representatives limit) ?_ ?_ heq)
  · exact (h.mem_leaves_iff ht hx_lt).mp hx
  · exact (h.mem_leaves_iff ht hy_lt).mp hy

end Grafted
end CallTree

namespace Trace
variable {t r : Trace} {depthLimit : Nat} {tree : CallTree}

theorem exists_reduce? (depthLimit : Nat) (htree : CallTree.ofSpans t.spans = .ok tree) : ∃ u f,
    t.reduce? depthLimit = .ok u.flatten ∧
      CallTree.Grafted (tree.representatives depthLimit) f u tree := by
  obtain ⟨hregular, -⟩ := CallTree.ofSpans_eq_ok_iff.mp htree
  obtain ⟨top, u, f, htop, hu, hf⟩ := hregular.toRooted.exists_reduced depthLimit
  refine ⟨u, f, ?_, hf⟩
  rw [reduce?, htree]
  show (tree.truncate depthLimit >>= fun top => top.collapse >>= fun u => pure u.flatten) = _
  rw [htop]
  show (top.collapse >>= fun u => pure u.flatten) = _
  rw [hu]
  rfl

theorem reduce?_eq_ok_iff : t.reduce? depthLimit = .ok r ↔ ∃ tree u f,
    CallTree.ofSpans t.spans = .ok tree ∧
      CallTree.Grafted (tree.representatives depthLimit) f u tree ∧ r = u.flatten := by
  constructor
  · intro h
    obtain ⟨tree, htree, -⟩ := Except.bind_eq_ok.mp h
    obtain ⟨u, f, hu, hf⟩ := exists_reduce? depthLimit htree
    exact ⟨tree, u, f, htree, hf, Except.ok.inj (h.symm.trans hu)⟩
  · rintro ⟨tree, u, f, htree, hf, rfl⟩
    obtain ⟨u', f', hu', hf'⟩ := exists_reduce? depthLimit htree
    have hnamed := (CallTree.ofSpans_eq_ok_iff.mp htree).2.1
    rw [hu', hf.eq_of_spans hf' hnamed hnamed rfl]

@[simp] theorem spans_flatten (u : CallTree) : u.flatten.spans = u.spans := spans_ofSpans _

end Trace
end CallTrace
