import CallTrace.Proofs.Trace.Lineage
import CallTrace.Proofs.Tree.Census
import CallTrace.Proofs.Tree.Embedding
import Mathlib.Data.List.Perm.Subperm

/-! # Trees and their spans

A tree is named if its links are those that its spans tell: span ids are distinct, the root is the
span without parent, and every other span names its parent (`CallTree.Named`).  A line of callers
in the list of its spans is then a path in the tree (`CallTree.Named.lineage_path`).

Reconstruction can be followed without its census (`CallTree.ofSpans_of_passes`).  It succeeds on
exactly those lists that form a tree (`CallTree.exists_ofSpans_iff`), and
its result is the one regular and named tree whose nodes hold these spans in this order
(`CallTree.ofSpans_eq_ok_iff`).  Named trees are embedded in each other as soon as the spans of one
are spans of the other (`CallTree.Named.embeds`). -/

namespace CallTrace
namespace CallTree
variable {t u : CallTree} {spans : List Span} {f : Nat → Nat} {id : Nat}

/-- The links of a tree are those that its spans tell. -/
structure Named (t : CallTree) : Prop where
  distinct : ∀ i < t.size, ∀ j < t.size, (t.span i).spanId = (t.span j).spanId → i = j
  root_iff : ∀ id < t.size, (t.span id).isRoot = true ↔ id = t.root
  caller : ∀ child parent, t.parent child = some parent →
    (t.span child).parentSpanId = (t.span parent).spanId
  root_ne : (t.span t.root).spanId ≠ (t.span t.root).parentSpanId

theorem mem_spans_thaw {s : Span} : s ∈ t.thaw.spans ↔ ∃ id < t.size, t.span id = s := by
  rw [spans_thaw, List.mem_map]
  simp only [List.mem_range]

theorem Rooted.spans_perm (h : t.Rooted) : t.spans.Perm t.thaw.spans :=
  spans_thaw t ▸ h.bfs_perm.map t.span

/-- The spans of an embedded tree are some of those of the tree. -/
theorem Embeds.spans_subperm (h : Embeds f u t) (hu : u.Rooted) : u.spans.Subperm t.thaw.spans := by
  have hnodup : ((List.range u.size).map f).Nodup := List.nodup_range.map_on fun i hi j hj =>
    h.inj i (List.mem_range.mp hi) j (List.mem_range.mp hj)
  have hsub : (List.range u.size).map f ⊆ List.range t.size := fun x hx => by
    obtain ⟨id, hid, rfl⟩ := List.mem_map.mp hx
    exact List.mem_range.mpr (h.lt id (List.mem_range.mp hid))
  obtain ⟨nodes, hperm, hnodes⟩ := List.subperm_of_subset hnodup hsub
  refine hu.spans_perm.subperm.trans ?_
  rw [h.spans_thaw, t.spans_thaw]
  exact ⟨nodes.map t.span, hperm.map t.span, hnodes.map t.span⟩

/-! ### Embeddings of named trees -/

theorem Named.embeds (hu : u.Named) (ht : t.Named) (hu' : u.Rooted) (ht' : t.Rooted)
    (hlt : ∀ id < u.size, f id < t.size) (hspan : ∀ id < u.size, u.span id = t.span (f id)) :
    Embeds f u t := by
  have hroot : ∀ id < u.size, f id = t.root ↔ id = u.root := fun id hid => by
    rw [← ht.root_iff _ (hlt id hid), ← hspan id hid, hu.root_iff id hid]
  refine ⟨hlt, fun i hi j hj heq => ?_, (hroot _ hu'.root_lt).mpr rfl, fun id hid => ?_, hspan⟩
  · refine hu.distinct i hi j hj ?_
    rw [hspan i hi, hspan j hj, heq]
  · cases hparent : u.parent id with
    | none =>
      rw [(hroot id hid).mpr (hu'.eq_root_of_parent hid hparent), ht'.parent_root, Option.map_none]
    | some p =>
      have hp := hu'.parent_lt hparent
      obtain ⟨q, hq, hlink⟩ := ht'.exists_parent (hlt id hid)
        (mt (hroot id hid).mp (hu'.ne_root hparent))
      rw [hlink, Option.map_some]
      refine congrArg some (ht.distinct q hq _ (hlt p hp) ?_)
      rw [← ht.caller _ _ hlink, ← hspan id hid, hu.caller id p hparent, hspan p hp]

/-- The spans of the nodes are those of the tree, in their order. -/
theorem getElem?_eq_some_iff_span (hspans : t.thaw.spans = spans) {s : Span} :
    spans[id]? = some s ↔ id < t.size ∧ t.span id = s := by
  rw [← hspans, spans_thaw, List.getElem?_map, Option.map_eq_some_iff]
  by_cases hid : id < t.size <;> simp [hid]

/-- Names are kept by an embedding. -/
theorem Embeds.named (h : Embeds f u t) (hu : u.Rooted) (ht : t.Named) : u.Named where
  distinct i hi j hj heq := by
    rw [h.span i hi, h.span j hj] at heq
    exact h.inj i hi j hj (ht.distinct _ (h.lt i hi) _ (h.lt j hj) heq)
  root_iff id hid := by
    rw [h.span id hid, ht.root_iff _ (h.lt id hid), ← h.root]
    exact ⟨h.inj id hid _ hu.root_lt, fun heq => heq ▸ rfl⟩
  caller child parent hparent := by
    have hchild := Rooted.lt_size_of_parent hparent
    have hlink := h.parent child hchild
    rw [hparent] at hlink
    rw [h.span child hchild, h.span parent (hu.parent_lt hparent), ht.caller _ _ hlink]
  root_ne := by
    rw [h.span _ hu.root_lt, h.root]
    exact ht.root_ne

/-- A regular and named tree is determined by its spans. -/
theorem Named.eq_of_spans (ht : t.Regular) (ht' : t.Named) (hu : u.Regular) (hu' : u.Named)
    (hspans : t.thaw.spans = u.thaw.spans) : t = u := by
  have hsize : t.size = u.size := by
    have := congrArg List.length hspans
    simpa using this
  have hspan : ∀ id < t.size, t.span id = u.span id := by
    intro id hid
    have := congrArg (·[id]?) hspans
    simpa [spans_thaw, hid, hsize ▸ hid] using this
  have h : Embeds id t u := ht'.embeds hu' ht.toRooted hu.toRooted (fun id hid => hsize ▸ hid) hspan
  refine ht.ext hu hsize h.root hspan fun id hid => ?_
  have hparent := h.parent id hid
  rw [Option.map_id, id_eq] at hparent
  exact hparent.symm

/-! ### Lines of callers -/

theorem Named.isRoot_of_parent (h : t.Named) (ht : t.Rooted) {child parent : Nat}
    (hparent : t.parent child = some parent) : (t.span child).isRoot = false :=
  Bool.eq_false_iff.mpr fun hroot =>
    ht.ne_root hparent ((h.root_iff child (Rooted.lt_size_of_parent hparent)).mp hroot)

theorem Named.parent_of_caller (h : t.Named) (ht : t.Rooted) {child parent : Nat}
    (hchild : child < t.size) (hparent : parent < t.size) (hcall : (t.span child).isRoot = false)
    (hcaller : (t.span child).parentSpanId = (t.span parent).spanId) :
    t.parent child = some parent := by
  have hne : child ≠ t.root := fun heq =>
    Bool.false_ne_true (hcall.symm.trans ((h.root_iff child hchild).mpr heq))
  obtain ⟨p, hp, hlink⟩ := ht.exists_parent hchild hne
  rw [hlink, h.distinct p hp parent hparent ((h.caller child p hlink).symm.trans hcaller)]

/-- The path of a node is the line of callers of its span. -/
theorem Named.lineage_path (h : t.Named) (ht : t.Rooted) (hid : id < t.size) :
    Lineage t.thaw.spans ((t.path id).map t.span) := by
  have hmem : ∀ id < t.size, t.span id ∈ t.thaw.spans := fun id hid => mem_spans_thaw.mpr ⟨id, hid, rfl⟩
  induction id, hid using ht.induction with
  | root =>
    rw [ht.path_root]
    exact .root (hmem _ ht.root_lt) ((h.root_iff _ ht.root_lt).mpr rfl)
  | call child parent hparent ih =>
    have hchild := Rooted.lt_size_of_parent hparent
    rw [ht.path_of_parent hparent]
    exact .call (hmem child hchild) (h.isRoot_of_parent ht hparent) (h.caller child parent hparent) ih

theorem Named.below_iff (h : t.Named) (ht : t.Rooted) {c j : Nat} (hc : c < t.size)
    (hj : j < t.size) : Below t.thaw.spans (t.span c) (t.span j) ↔ c ∈ t.path j := by
  have hmem : ∀ id < t.size, t.span id ∈ t.thaw.spans := fun id hid => mem_spans_thaw.mpr ⟨id, hid, rfl⟩
  constructor
  · intro hbelow
    generalize hs : t.span j = s at hbelow
    induction hbelow generalizing j with
    | self =>
      rw [h.distinct j hj c hc (congrArg Span.spanId hs)]
      exact t.mem_path_self c
    | call _ hcall hcaller hrest ih =>
      obtain ⟨m, hm, rfl⟩ := mem_spans_thaw.mp (hrest.mem (hmem c hc))
      subst hs
      rw [ht.path_of_parent (h.parent_of_caller ht hj hm hcall hcaller)]
      exact .tail _ (ih hm rfl)
  · refine ht.induction_below (motive := fun j => Below t.thaw.spans (t.span c) (t.span j)) .self
      (fun child parent hparent _ ih => ?_) hj
    exact .call (hmem child (Rooted.lt_size_of_parent hparent)) (h.isRoot_of_parent ht hparent)
      (h.caller child parent hparent) ih

theorem Named.formsTree (h : t.Named) (ht : t.Rooted) : FormsTree t.thaw.spans where
  ne_parent s hs := by
    obtain ⟨id, hid, rfl⟩ := mem_spans_thaw.mp hs
    by_cases hroot : id = t.root
    · rw [hroot]
      exact h.root_ne
    · obtain ⟨parent, hlt, hparent⟩ := ht.exists_parent hid hroot
      rw [h.caller id parent hparent]
      intro heq
      obtain rfl := h.distinct id hid parent hlt heq
      have := ht.level_of_parent hparent
      omega
  distinct := by
    rw [spans_thaw, List.map_map]
    refine List.nodup_range.map_on fun i hi j hj heq => ?_
    exact h.distinct i (List.mem_range.mp hi) j (List.mem_range.mp hj) heq
  one_root := by
    have hcount : ∀ id ∈ List.range t.size, (Span.isRoot ∘ t.span) id = true ↔ (id == t.root) = true :=
      fun id hid => by simpa using h.root_iff id (List.mem_range.mp hid)
    rw [spans_thaw, List.countP_map, List.countP_congr hcount, ← List.count_eq_countP]
    exact List.count_eq_one_of_mem List.nodup_range (List.mem_range.mpr ht.root_lt)
  reaches s hs := by
    obtain ⟨id, hid, rfl⟩ := mem_spans_thaw.mp hs
    exact ⟨_, h.lineage_path ht hid⟩

/-! ### Reconstruction -/

/-- What is left to fail when the census has been taken. -/
theorem ofSpans_of_census {c : Census} (hc : Census.ofSpans spans = .ok c) :
    ofSpans spans = match c.root with
      | none => .error .noRoot
      | some root =>
        if 0 < orphans spans then .error (.disconnected (orphans spans))
        else (c.link spans).finish root := by
  rw [ofSpans, hc, ← (Census.ofSpans_eq_ok hc).1.countP_isOrphan]
  show (match c.root with | none => _ | some root => _) = _
  cases c.root with
  | none => rfl
  | some root =>
    dsimp only
    split <;> rfl

/-- The answer to spans that the census takes, without a census. -/
theorem ofSpans_of_passes (h : Census.Passes spans) :
    ofSpans spans = match spans.findIdx? Span.isRoot with
      | none => .error .noRoot
      | some root =>
        if 0 < orphans spans then .error (.disconnected (orphans spans))
        else (Census.linked spans).finish root := by
  obtain ⟨c, hc⟩ := Census.exists_ofSpans h
  have hof := (Census.ofSpans_eq_ok hc).1
  rw [ofSpans_of_census hc, hof.root_eq, hof.link_eq]

theorem ofSpans_eq_ok_iff_finish : CallTree.ofSpans spans = .ok t ↔
    ∃ c root, Census.ofSpans spans = .ok c ∧ c.root = some root ∧ spans.countP c.isOrphan = 0 ∧
      (c.link spans).finish root = .ok t := by
  constructor
  · intro hok
    obtain ⟨c, hc, -⟩ := Except.bind_eq_ok.mp hok
    rw [ofSpans_of_census hc] at hok
    cases hroot : c.root with
    | none =>
      rw [hroot] at hok
      cases hok
    | some root =>
      rw [hroot] at hok
      dsimp only at hok
      split at hok
      · cases hok
      · next hzero =>
        rw [← (Census.ofSpans_eq_ok hc).1.countP_isOrphan] at hzero
        exact ⟨c, root, hc, hroot, Nat.eq_zero_of_not_pos hzero, hok⟩
  · rintro ⟨c, root, hc, hroot, horphans, hfinish⟩
    rw [(Census.ofSpans_eq_ok hc).1.countP_isOrphan] at horphans
    rw [ofSpans_of_census hc, hroot, horphans]
    exact hfinish

theorem regular_named_of_ofSpans (hok : CallTree.ofSpans spans = .ok t) :
    t.Regular ∧ t.Named ∧ t.thaw.spans = spans := by
  obtain ⟨c, root, hc, hroot, -, hfinish⟩ := ofSpans_eq_ok_iff_finish.mp hok
  obtain ⟨hof, hpasses⟩ := Census.ofSpans_eq_ok hc
  obtain ⟨hordered, hlinked, hlink⟩ := hof.ordered_link
  obtain ⟨hthaw, rfl, -⟩ := Arena.finish_eq_ok hfinish
  have hregular := hordered.regular hfinish
  have hspans : t.thaw.spans = spans := by rw [hthaw, hlinked]
  have hget := @getElem?_eq_some_iff_span t spans
  refine ⟨hregular, ⟨fun i hi j hj heq => ?_, fun id hid => ?_, fun child parent hparent => ?_, ?_⟩,
    hspans⟩
  · have hdistinct := hpasses.distinct
    rw [← hspans, spans_thaw, List.map_map] at hdistinct
    exact List.inj_on_of_nodup_map hdistinct (List.mem_range.mpr hi) (List.mem_range.mpr hj) heq
  · constructor
    · intro hid_root
      have := (hof.root id).mpr ⟨_, (hget hspans).mpr ⟨hid, rfl⟩, hid_root⟩
      exact Option.some.inj (this.symm.trans hroot)
    · rintro rfl
      obtain ⟨s, hs, hs_root⟩ := (hof.root _).mp hroot
      rwa [((hget hspans).mp hs).2]
  · rw [← t.parent_thaw, hthaw, hlink, Option.bind_eq_some_iff] at hparent
    obtain ⟨s, hs, habove⟩ := hparent
    obtain ⟨-, p, hp, heq⟩ := hof.parent?_eq_some_iff.mp habove
    rw [((hget hspans).mp hs).2, ((hget hspans).mp hp).2, heq]
  · exact hpasses.ne_parent _ (hspans ▸ mem_spans_thaw.mpr ⟨_, hregular.root_lt, rfl⟩)

theorem exists_ofSpans (h : FormsTree spans) : ∃ t, CallTree.ofSpans spans = .ok t := by
  obtain ⟨c, hc⟩ := Census.exists_ofSpans ⟨h.ne_parent, h.distinct, Nat.le_of_eq h.one_root⟩
  obtain ⟨hof, -⟩ := Census.ofSpans_eq_ok hc
  obtain ⟨hordered, hspans, hlink⟩ := hof.ordered_link
  have hsize : (c.link spans).size = spans.length := by rw [← Arena.length_spans, hspans]
  obtain ⟨root, hroot⟩ : ∃ root, c.root = some root := by
    rw [← Option.isSome_iff_exists, hof.isSome_root_iff, h.one_root]
    exact Nat.one_pos
  obtain ⟨r, hr, hr_root⟩ := (hof.root root).mp hroot
  obtain ⟨rank, hrank⟩ := h.exists_rank
  have hranked : (c.link spans).Ranked root rank := by
    refine ⟨hsize ▸ (List.getElem?_eq_some_iff.mp hr).1, ?_, ?_, fun id hid hne => ?_⟩
    · rw [hlink, hr, Option.bind_some, Census.parent?, if_pos hr_root]
    · rcases hrank root r hr with ⟨-, hzero⟩ | ⟨hcall, -⟩
      · exact hzero
      · simp [hr_root] at hcall
    · have hs := List.getElem?_eq_getElem (hsize ▸ hid)
      rcases hrank id _ hs with ⟨hid_root, -⟩ | ⟨hcall, above, caller, habove, hparent, heq⟩
      · exact absurd (Option.some.inj (((hof.root id).mpr ⟨_, hs, hid_root⟩).symm.trans hroot)) hne
      · refine ⟨above, hsize ▸ (List.getElem?_eq_some_iff.mp habove).1, ?_, heq⟩
        rw [hlink, hs, Option.bind_some]
        exact hof.parent?_eq_some_iff.mpr ⟨hcall, caller, habove, hparent.symm⟩
  have horphans : spans.countP c.isOrphan = 0 := by
    refine List.countP_eq_zero.mpr fun s hs horphan => ?_
    rw [Census.isOrphan, Bool.and_eq_true, Bool.not_eq_true', Bool.not_eq_true'] at horphan
    obtain ⟨id, hid⟩ := List.mem_iff_getElem?.mp hs
    rcases hrank id s hid with ⟨hs_root, -⟩ | ⟨-, above, caller, habove, hparent, -⟩
    · simp [horphan.1] at hs_root
    · have := (hof.contains_iff s.parentSpanId).mpr
        (List.mem_map.mpr ⟨caller, List.mem_of_getElem? habove, hparent.symm⟩)
      simp [horphan.2] at this
  obtain ⟨t, ht⟩ := hordered.toConsistent.exists_finish hranked
  exact ⟨t, ofSpans_eq_ok_iff_finish.mpr ⟨c, root, hc, hroot, horphans, ht⟩⟩

theorem exists_ofSpans_iff : (∃ t, CallTree.ofSpans spans = .ok t) ↔ FormsTree spans := by
  refine ⟨fun ⟨t, ht⟩ => ?_, exists_ofSpans⟩
  obtain ⟨hregular, hnamed, rfl⟩ := regular_named_of_ofSpans ht
  exact hnamed.formsTree hregular.toRooted

theorem ofSpans_eq_ok_iff :
    CallTree.ofSpans spans = .ok t ↔ t.Regular ∧ t.Named ∧ t.thaw.spans = spans := by
  refine ⟨regular_named_of_ofSpans, fun ⟨hregular, hnamed, hspans⟩ => ?_⟩
  obtain ⟨u, hu⟩ := exists_ofSpans (hspans ▸ hnamed.formsTree hregular.toRooted)
  obtain ⟨hu_regular, hu_named, hu_spans⟩ := regular_named_of_ofSpans hu
  rw [hnamed.eq_of_spans hregular hu_regular hu_named (hspans.trans hu_spans.symm)]
  exact hu

/-- A tree is had back from its spans in any order, with its nodes in that order. -/
theorem Named.exists_ofSpans_of_perm (h : t.Named) (ht : t.Rooted) {nodes : List Nat}
    (hnodes : nodes.Perm (List.range t.size)) : ∃ u f, CallTree.ofSpans (nodes.map t.span) = .ok u ∧
      Embeds f u t ∧ (List.range u.size).map f = nodes := by
  have hspans : t.thaw.spans.Perm (nodes.map t.span) := t.spans_thaw ▸ (hnodes.map t.span).symm
  obtain ⟨u, hu⟩ := exists_ofSpans ((h.formsTree ht).perm hspans)
  obtain ⟨hregular, hnamed, hu_spans⟩ := ofSpans_eq_ok_iff.mp hu
  have hsize : u.size = nodes.length := by
    rw [← u.size_thaw, ← Arena.length_spans, hu_spans, List.length_map]
  have hrange : (List.range u.size).map (fun k => nodes.getD k 0) = nodes := by
    rw [hsize]
    exact List.map_getD_range nodes
  refine ⟨u, _, hu, hnamed.embeds h hregular.toRooted ht (fun id hid => ?_) (fun id hid => ?_), hrange⟩
  · rw [← List.mem_range, ← hnodes.mem_iff, List.getD_eq_getElem _ _ (hsize ▸ hid)]
    exact List.getElem_mem _
  · have hget := congrArg (·[id]?) hu_spans
    rw [u.spans_thaw] at hget
    simpa [hid, hsize ▸ hid] using hget

end CallTree
end CallTrace
