import CallTrace.Proofs.Reduction.Kept

/-! # Reduction of reordered spans

Spans in another order make another tree: siblings change places, other leaves stand for their
loops, and what is left of two loops that share a node need not even have the same size.  What stays
is the set of paths from the root down to a leaf, a path being the operations on it.  After reduction
these are the paths of the tree cut at the limit (`Trace.exists_leafPath_iff`), each of them with one
leaf (`Trace.leafPath_unique`), whatever the order of the spans was (`Trace.reduce?_agree_of_perm`). -/

namespace CallTrace
variable {spans spans' line : List Span} {s leaf : Span} {path : List String} {limit : Nat}

/-- The operations from the root down to a leaf, a span that calls no other. -/
def LeafPath (spans : List Span) (leaf : Span) (path : List String) : Prop :=
  ∃ line, Lineage spans (leaf :: line) ∧ (∀ s, ¬ Lineage spans (s :: leaf :: line)) ∧
    path = ((leaf :: line).map Span.operationHash).reverse

/-- The operations from the root down to a leaf of the tree cut at a limit: every call of the leaf
is farther from the root than the limit. -/
def CutPath (limit : Nat) (spans : List Span) (leaf : Span) (path : List String) : Prop :=
  ∃ line, Lineage spans (leaf :: line) ∧ line.length ≤ limit ∧
    (∀ s, Lineage spans (s :: leaf :: line) → limit < (leaf :: line).length) ∧
    path = ((leaf :: line).map Span.operationHash).reverse

/-! ### The order makes no difference -/

theorem Lineage.perm_iff (h : spans.Perm spans') : Lineage spans line ↔ Lineage spans' line :=
  ⟨fun hline => hline.mono h.subset, fun hline => hline.mono h.symm.subset⟩

theorem leafPath_perm_iff (h : spans.Perm spans') :
    LeafPath spans leaf path ↔ LeafPath spans' leaf path := by
  simp only [LeafPath, Lineage.perm_iff h]

theorem cutPath_perm_iff (h : spans.Perm spans') :
    CutPath limit spans leaf path ↔ CutPath limit spans' leaf path := by
  simp only [CutPath, Lineage.perm_iff h]

/-! ### Paths in a tree -/

theorem CallTree.hashPath_eq (t : CallTree) (id : Nat) : t.hashPath id
    = (t.span id :: (t.ancestors id).map t.span).map Span.operationHash := by
  simp [hashPath, path]

namespace CallTree.Named
variable {t : CallTree} {id : Nat} (h : t.Named) (ht : t.Rooted)
include h ht

theorem lineage_iff : Lineage t.thaw.spans (s :: line) ↔
    ∃ id < t.size, t.span id = s ∧ line = (t.ancestors id).map t.span := by
  constructor
  · intro hline
    obtain ⟨id, hid, rfl⟩ := mem_spans_thaw.mp hline.mem
    exact ⟨id, hid, rfl, hline.unique (h.formsTree ht).distinct (h.lineage_path ht hid)⟩
  · rintro ⟨id, hid, rfl, rfl⟩
    exact h.lineage_path ht hid

/-- A line goes on with the spans of the children of its node. -/
theorem lineage_cons_iff (hid : id < t.size) :
    Lineage t.thaw.spans (s :: t.span id :: (t.ancestors id).map t.span) ↔
      ∃ c ∈ t.children id, t.span c = s := by
  rw [h.lineage_iff ht]
  constructor
  · rintro ⟨c, hc, rfl, hline⟩
    have hne : c ≠ t.root := by
      rintro rfl
      simp [ht.ancestors_root] at hline
    obtain ⟨p, hp, hparent⟩ := ht.exists_parent hc hne
    rw [ht.ancestors_of_parent hparent, path, List.map_cons] at hline
    have hspan := (List.cons.inj hline).1
    obtain rfl := h.distinct id hid p hp (congrArg Span.spanId hspan)
    exact ⟨c, ht.mem_children.mpr hparent, rfl⟩
  · rintro ⟨c, hc, rfl⟩
    have hparent := ht.mem_children.mp hc
    refine ⟨c, Rooted.lt_size_of_parent hparent, rfl, ?_⟩
    rw [ht.ancestors_of_parent hparent, path, List.map_cons]

theorem leafPath_iff : LeafPath t.thaw.spans leaf path ↔
    ∃ id ∈ t.leaves, t.span id = leaf ∧ path = (t.hashPath id).reverse := by
  constructor
  · rintro ⟨line, hline, hend, rfl⟩
    obtain ⟨id, hid, rfl, rfl⟩ := (h.lineage_iff ht).mp hline
    refine ⟨id, ht.mem_leaves.mpr ⟨hid, List.eq_nil_iff_forall_not_mem.mpr fun c hc => ?_⟩, rfl,
      by rw [t.hashPath_eq]⟩
    exact hend _ ((h.lineage_cons_iff ht hid).mpr ⟨c, hc, rfl⟩)
  · rintro ⟨id, hleaf, rfl, rfl⟩
    obtain ⟨hid, hchildren⟩ := ht.mem_leaves.mp hleaf
    refine ⟨_, (h.lineage_iff ht).mpr ⟨id, hid, rfl, rfl⟩, fun s hs => ?_, by rw [t.hashPath_eq]⟩
    obtain ⟨c, hc, -⟩ := (h.lineage_cons_iff ht hid).mp hs
    simp [hchildren] at hc

theorem cutPath_iff : CutPath limit t.thaw.spans leaf path ↔
    ∃ id ∈ t.ends limit, t.span id = leaf ∧ path = (t.hashPath id).reverse := by
  have hlength : ∀ id < t.size, ((t.ancestors id).map t.span).length = t.level id := fun id hid => by
    have := ht.length_path hid
    rw [CallTree.path, List.length_cons] at this
    rw [List.length_map]
    omega
  constructor
  · rintro ⟨line, hline, hle, hend, rfl⟩
    obtain ⟨id, hid, rfl, rfl⟩ := (h.lineage_iff ht).mp hline
    refine ⟨id, ht.mem_ends.mpr ⟨hid, ?_⟩, rfl, by rw [t.hashPath_eq]⟩
    rw [List.length_cons, hlength id hid] at hend
    rw [hlength id hid] at hle
    rcases Nat.lt_or_eq_of_le hle with hlt | heq
    · refine .inr ⟨hlt, List.eq_nil_iff_forall_not_mem.mpr fun c hc => ?_⟩
      have := hend _ ((h.lineage_cons_iff ht hid).mpr ⟨c, hc, rfl⟩)
      omega
    · exact .inl heq
  · rintro ⟨id, hmem, rfl, rfl⟩
    obtain ⟨hid, hend⟩ := ht.mem_ends.mp hmem
    refine ⟨_, (h.lineage_iff ht).mpr ⟨id, hid, rfl, rfl⟩, ?_, fun s hs => ?_,
      by rw [t.hashPath_eq]⟩
    · rw [hlength id hid]
      omega
    · rw [List.length_cons, hlength id hid]
      rcases hend with heq | ⟨-, hchildren⟩
      · omega
      · obtain ⟨c, hc, -⟩ := (h.lineage_cons_iff ht hid).mp hs
        simp [hchildren] at hc

end CallTree.Named

/-! ### Paths after reduction -/

namespace Trace
variable {t r : Trace} {depthLimit : Nat}

/-- The leaves of a reduced trace are the spans of its representatives. -/
theorem leafPath_reduce?_iff {tree u : CallTree} {f : Nat → Nat} (htree : tree.Regular)
    (hnamed : tree.Named) (h : CallTree.Grafted (tree.representatives depthLimit) f u tree) :
    LeafPath u.spans leaf path ↔ ∃ id ∈ tree.representatives depthLimit,
      tree.span id = leaf ∧ path = (tree.hashPath id).reverse := by
  have hu := h.regular.toRooted
  have ht := htree.toRooted
  rw [leafPath_perm_iff hu.spans_perm, (h.toEmbeds.named hu hnamed).leafPath_iff hu]
  constructor
  · rintro ⟨id, hid, rfl, rfl⟩
    have hlt := (hu.mem_leaves.mp hid).1
    refine ⟨f id, (h.mem_leaves_iff ht hlt).mp hid, (h.span id hlt).symm, ?_⟩
    rw [h.toEmbeds.hashPath hu ht hlt]
  · rintro ⟨x, hx, rfl, rfl⟩
    obtain ⟨id, hlt, rfl⟩ := h.mem_grafted_iff.mp
      (CallTree.mem_grafted.mpr ⟨x, hx, tree.mem_path_self x⟩)
    refine ⟨id, (h.mem_leaves_iff ht hlt).mpr hx, h.span id hlt, ?_⟩
    rw [h.toEmbeds.hashPath hu ht hlt]

/-- The paths that are left are those of the tree cut at the limit. -/
theorem exists_leafPath_iff (h : t.reduce? depthLimit = .ok r) :
    (∃ leaf, LeafPath r.spans leaf path) ↔ ∃ leaf, CutPath depthLimit t.spans leaf path := by
  obtain ⟨tree, u, f, htree, hu, rfl⟩ := reduce?_eq_ok_iff.mp h
  obtain ⟨hregular, hnamed, hspans⟩ := CallTree.ofSpans_eq_ok_iff.mp htree
  rw [spans_flatten, ← hspans]
  simp only [leafPath_reduce?_iff hregular hnamed hu, hnamed.cutPath_iff hregular.toRooted]
  constructor
  · rintro ⟨leaf, id, hid, hleaf, hpath⟩
    exact ⟨leaf, id, CallTree.representatives_subset hid, hleaf, hpath⟩
  · rintro ⟨-, id, hid, rfl, rfl⟩
    obtain ⟨x, hx, heq⟩ := List.exists_mem_firsts (f := tree.hashPath) hid
    exact ⟨_, x, hx, rfl, by rw [heq]⟩

/-- Each path is left once. -/
theorem leafPath_unique (h : t.reduce? depthLimit = .ok r) {leaf' : Span}
    (hleaf : LeafPath r.spans leaf path) (hleaf' : LeafPath r.spans leaf' path) : leaf = leaf' := by
  obtain ⟨tree, u, f, htree, hu, rfl⟩ := reduce?_eq_ok_iff.mp h
  obtain ⟨hregular, hnamed, -⟩ := CallTree.ofSpans_eq_ok_iff.mp htree
  rw [spans_flatten, leafPath_reduce?_iff hregular hnamed hu] at hleaf hleaf'
  obtain ⟨x, hx, rfl, rfl⟩ := hleaf
  obtain ⟨y, hy, rfl, hpath⟩ := hleaf'
  rw [List.inj_on_of_nodup_map (tree.nodup_hashPath_representatives depthLimit) hx hy
    (List.reverse_injective hpath)]

theorem exists_reduce?_iff : (∃ r, t.reduce? depthLimit = .ok r) ↔ FormsTree t.spans := by
  rw [← CallTree.exists_ofSpans_iff]
  constructor
  · rintro ⟨r, hr⟩
    obtain ⟨tree, -, -, htree, -⟩ := reduce?_eq_ok_iff.mp hr
    exact ⟨tree, htree⟩
  · rintro ⟨tree, htree⟩
    obtain ⟨u, -, hu, -⟩ := exists_reduce? depthLimit htree
    exact ⟨_, hu⟩

theorem reduce?_agree_of_perm (depthLimit : Nat) {t₁ t₂ : Trace} (h : t₁.spans.Perm t₂.spans) :
    ((∃ r, t₁.reduce? depthLimit = .ok r) ↔ ∃ r, t₂.reduce? depthLimit = .ok r) ∧
      ∀ r₁ r₂, t₁.reduce? depthLimit = .ok r₁ → t₂.reduce? depthLimit = .ok r₂ → ∀ path,
        ((∃ leaf, LeafPath r₁.spans leaf path) ↔ ∃ leaf, LeafPath r₂.spans leaf path) ∧
        ((∃ leaf, LeafPath r₁.spans leaf path) ↔ ∃ leaf, CutPath depthLimit t₁.spans leaf path) ∧
        ((∃ leaf, LeafPath r₁.spans leaf path) → (∃! leaf, LeafPath r₁.spans leaf path) ∧
          ∃! leaf, LeafPath r₂.spans leaf path) := by
  refine ⟨?_, fun r₁ r₂ h₁ h₂ path => ?_⟩
  · rw [exists_reduce?_iff, exists_reduce?_iff]
    exact ⟨fun hspans => hspans.perm h, fun hspans => hspans.perm h.symm⟩
  · have hsame : (∃ leaf, LeafPath r₁.spans leaf path) ↔ ∃ leaf, LeafPath r₂.spans leaf path := by
      rw [exists_leafPath_iff h₁, exists_leafPath_iff h₂]
      simp only [cutPath_perm_iff h]
    refine ⟨hsame, exists_leafPath_iff h₁, fun hex => ?_⟩
    obtain ⟨leaf₁, hleaf₁⟩ := hex
    obtain ⟨leaf₂, hleaf₂⟩ := hsame.mp ⟨leaf₁, hleaf₁⟩
    exact ⟨⟨leaf₁, hleaf₁, fun _ hleaf => leafPath_unique h₁ hleaf hleaf₁⟩,
      ⟨leaf₂, hleaf₂, fun _ hleaf => leafPath_unique h₂ hleaf hleaf₂⟩⟩

/-- Two loops share the nodes above them in one order and not in the other. -/
theorem reduce?_agree_of_perm_other_size :
    let root : Span := { spanId := "r", operationHash := "R" }
    let x : Span := { spanId := "x", parentSpanId := "r", operationHash := "X" }
    let y : Span := { spanId := "y", parentSpanId := "r", operationHash := "X" }
    let calls : List Span := [{ spanId := "p", parentSpanId := "x", operationHash := "P" },
      { spanId := "q", parentSpanId := "x", operationHash := "Q" },
      { spanId := "s", parentSpanId := "y", operationHash := "P" }]
    ∃ r₁ r₂, (ofSpans (root :: x :: y :: calls)).reduce? 5 = .ok r₁ ∧
      (ofSpans (root :: y :: x :: calls)).reduce? 5 = .ok r₂ ∧
      r₁.spans.length = 4 ∧ r₂.spans.length = 5 ∧
      ∀ path, (∃ leaf, LeafPath r₁.spans leaf path) ↔ ∃ leaf, LeafPath r₂.spans leaf path := by
  intro root x y calls
  have h₁ : (ofSpans (root :: x :: y :: calls)).reduce? 5
      = .ok (ofSpans [root, x, calls[0], calls[1]]) := by
    rw [reduce?, spans_ofSpans, CallTree.ofSpans_of_passes (by decide)]
    decide +kernel
  have h₂ : (ofSpans (root :: y :: x :: calls)).reduce? 5
      = .ok (ofSpans [root, y, x, calls[2], calls[1]]) := by
    rw [reduce?, spans_ofSpans, CallTree.ofSpans_of_passes (by decide)]
    decide +kernel
  have hperm : (ofSpans (root :: x :: y :: calls)).spans.Perm
      (ofSpans (root :: y :: x :: calls)).spans := by
    rw [spans_ofSpans, spans_ofSpans]
    exact (List.Perm.swap y x calls).cons root
  exact ⟨_, _, h₁, h₂, by decide, by decide,
    fun path => ((reduce?_agree_of_perm 5 hperm).2 _ _ h₁ h₂ path).1⟩

end Trace
end CallTrace
