import CallTrace.Proofs.Tree.Arrivals
import CallTrace.Proofs.Tree.Reconstruction

/-! # The tree that is read off its spans

What tree a list of spans tells of can be said node by node, without building it
(`CallTree.ReadOff`): node `i` holds the span in place `i`, the root is the one span that names no
caller, every other node hangs on the node of the id that it names, the children of a node are the
spans that name it, in the order of the list, and its level counts the callers above it.

Wherever reconstruction succeeds it gives this tree, there is no other, and building it while spans
arrive gives it too (`CallTree.ofSpans_readOff`). -/

namespace CallTrace.CallTree
variable {t u : CallTree} {spans : List Span} {id : Nat}

/-- A tree says of every node what the spans say of the span in its place. -/
structure ReadOff (spans : List Span) (t : CallTree) : Prop where
  size_eq : t.size = spans.length
  span_eq : ∀ id < t.size, spans[id]? = some (t.span id)
  root_lt : t.root < t.size
  root_iff : ∀ id < t.size, (t.span id).parentSpanId = "" ↔ id = t.root
  parent_root : t.parent t.root = none
  parent : ∀ id < t.size, id ≠ t.root → ∃ parent < t.size, t.parent id = some parent ∧
    ∀ other < t.size, (t.span other).spanId = (t.span id).parentSpanId ↔ other = parent
  children_eq : ∀ id < t.size, t.children id = naming spans (t.span id).spanId
  level_eq : ∀ id < t.size, ∃ callers, Lineage spans (t.span id :: callers) ∧
    t.level id = callers.length

/-- A regular tree has as children of a node the spans that name it. -/
theorem Named.children_eq (h : t.Named) (ht : t.Regular) (hid : id < t.size) :
    t.children id = naming t.thaw.spans (t.span id).spanId := by
  refine (ht.sorted id).eq_of_mem_iff List.pairwise_findIdxs fun c => ?_
  rw [ht.mem_children, mem_naming]
  simp only [getElem?_eq_some_iff_span rfl]
  constructor
  · intro hparent
    exact ⟨_, ⟨Rooted.lt_size_of_parent hparent, rfl⟩, h.isRoot_of_parent ht.toRooted hparent,
      h.caller c id hparent⟩
  · rintro ⟨s, ⟨hc, rfl⟩, hcall, hcaller⟩
    exact h.parent_of_caller ht.toRooted hc hid hcall hcaller

theorem Named.readOff (h : t.Named) (ht : t.Regular) : ReadOff t.thaw.spans t where
  size_eq := by rw [Arena.length_spans, size_thaw]
  span_eq id hid := (getElem?_eq_some_iff_span rfl).mpr ⟨hid, rfl⟩
  root_lt := ht.root_lt
  root_iff id hid := by
    rw [← h.root_iff id hid, Span.isRoot_iff]
  parent_root := ht.parent_root
  parent id hid hne := by
    obtain ⟨parent, hlt, hparent⟩ := ht.exists_parent hid hne
    refine ⟨parent, hlt, hparent, fun other hother => ?_⟩
    rw [h.caller id parent hparent]
    exact ⟨h.distinct other hother parent hlt, fun heq => heq ▸ rfl⟩
  children_eq id hid := h.children_eq ht hid
  level_eq id hid := by
    refine ⟨_, h.lineage_path ht.toRooted hid, ?_⟩
    have hlength := ht.length_path hid
    rw [path, List.length_cons] at hlength
    rw [List.length_map]
    omega

/-- The spans leave nothing open. -/
theorem ReadOff.unique (ht : ReadOff spans t) (hu : ReadOff spans u)
    (hdistinct : (spans.map Span.spanId).Nodup) : t = u := by
  have hsize : t.size = u.size := ht.size_eq.trans hu.size_eq.symm
  have hspan : ∀ id < t.size, t.span id = u.span id := fun id hid =>
    Option.some.inj ((ht.span_eq id hid).symm.trans (hu.span_eq id (hsize ▸ hid)))
  have hroot : t.root = u.root := by
    have hname := (ht.root_iff t.root ht.root_lt).mpr rfl
    rw [hspan _ ht.root_lt] at hname
    exact (hu.root_iff t.root (hsize ▸ ht.root_lt)).mp hname
  refine ext_of_forall hsize hroot hspan (fun id hid => ?_) (fun id hid => ?_) fun id hid => ?_
  · by_cases hid_root : id = t.root
    · rw [hid_root, ht.parent_root, hroot, hu.parent_root]
    · obtain ⟨p, hp, hlink, hnames⟩ := ht.parent id hid hid_root
      obtain ⟨q, hq, hlink', hnames'⟩ := hu.parent id (hsize ▸ hid) (hroot ▸ hid_root)
      have hname := (hnames p hp).mpr rfl
      rw [hspan p hp, hspan id hid] at hname
      rw [hlink, hlink', (hnames' p (hsize ▸ hp)).mp hname]
  · rw [ht.children_eq id hid, hu.children_eq id (hsize ▸ hid), hspan id hid]
  · obtain ⟨line, hline, hlevel⟩ := ht.level_eq id hid
    obtain ⟨line', hline', hlevel'⟩ := hu.level_eq id (hsize ▸ hid)
    rw [← hspan id hid] at hline'
    rw [hlevel, hlevel', hline.unique hdistinct hline']

/-- What reconstruction gives is the tree that is read off the spans, whatever their order. -/
theorem ofSpans_readOff (h : ofSpans spans = .ok t) :
    ReadOff spans t ∧ (∀ u, ReadOff spans u → u = t) ∧ ofArrivals spans = .ok t := by
  obtain ⟨hregular, hnamed, rfl⟩ := ofSpans_eq_ok_iff.mp h
  have hreadOff := hnamed.readOff hregular
  refine ⟨hreadOff, fun u hu => hu.unique hreadOff ?_, by rw [ofArrivals_eq_ofSpans, h]⟩
  exact (hnamed.formsTree hregular.toRooted).distinct

/-- Callees come before and after their callers.  Node 3 has those that waited for it first. -/
theorem ofSpans_readOff_callees_first :
    let spans : List Span := [
      { spanId := "c", parentSpanId := "b" },
      { spanId := "b", parentSpanId := "a" },
      { spanId := "d", parentSpanId := "a" },
      { spanId := "a", parentSpanId := "r" },
      { spanId := "r" },
      { spanId := "e", parentSpanId := "a" }]
    ∃ tree, ofSpans spans = .ok tree ∧ ofArrivals spans = .ok tree ∧ ReadOff spans tree ∧
      tree.root = 4 ∧ tree.children 3 = [1, 2, 5] ∧ tree.level 0 = 3 := by
  intro spans
  have hreading : (ofSpans spans >>= fun tree => pure (tree.root, tree.children 3, tree.level 0))
      = .ok (4, [1, 2, 5], 3) := by
    rw [ofSpans_of_passes (by decide)]
    decide +kernel
  obtain ⟨tree, htree, hreading⟩ := Except.bind_eq_ok.mp hreading
  obtain ⟨hreadOff, -, harrivals⟩ := ofSpans_readOff htree
  simp only [pure, Except.pure, Except.ok.injEq, Prod.mk.injEq] at hreading
  exact ⟨tree, htree, harrivals, hreadOff, hreading⟩

end CallTrace.CallTree
