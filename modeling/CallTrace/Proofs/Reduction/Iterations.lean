import CallTrace.Proofs.Reduction.Twins

/-! # Further iterations of a loop

An iteration of a call has, for the call and for everything called from it, a span of its own with
the same operation, and these call each other as the spans they stand for (`Iteration`).  Appending
iterations to the spans of a tree, however many and of whichever calls (`Unrolled`), changes nothing
of what reduction makes of them (`Trace.reduce?_unrolled`). -/

namespace CallTrace
variable {spans more copy : List Span} {c s caller : Span} {rename : Span → Span}

/-- `copy` consists of new spans, one for `c` and each span below it. -/
structure Iteration (spans : List Span) (c : Span) (rename : Span → Span) (copy : List Span) :
    Prop where
  calls : ∃ calls : List Span, calls.Nodup ∧ (∀ s, s ∈ calls ↔ Below spans c s) ∧
    copy.Perm (calls.map rename)
  operation : ∀ s, Below spans c s → (rename s).operationHash = s.operationHash
  top : (rename c).parentSpanId = c.parentSpanId
  call : ∀ s caller, Below spans c s → Below spans c caller → s.parentSpanId = caller.spanId →
    (rename s).parentSpanId = (rename caller).spanId
  fresh : ((spans ++ copy).map Span.spanId).Nodup
  named : ∀ s ∈ copy, s.spanId ≠ ""

/-- More iterations of calls are appended, one after the other. -/
inductive Unrolled (spans : List Span) : List Span → Prop
  | refl : Unrolled spans spans
  | iterate {more copy : List Span} {c : Span} {rename : Span → Span} : Unrolled spans more →
      c ∈ more → c.isRoot = false → Iteration more c rename copy → Unrolled spans (more ++ copy)

theorem Span.isRoot_of_parentSpanId {r : Span} (h : s.parentSpanId = r.parentSpanId) :
    s.isRoot = r.isRoot := by rw [isRoot, isRoot, h]

namespace Iteration
variable (h : Iteration spans c rename copy)
include h

theorem mem_copy : s ∈ copy ↔ ∃ r, Below spans c r ∧ rename r = s := by
  obtain ⟨calls, -, hcalls, hperm⟩ := h.calls
  rw [hperm.mem_iff, List.mem_map]
  simp only [hcalls]

theorem rename_mem (hs : Below spans c s) : rename s ∈ copy := h.mem_copy.mpr ⟨s, hs, rfl⟩

theorem spanId_ne {r : Span} (hs : s ∈ spans) (hr : r ∈ copy) : s.spanId ≠ r.spanId := by
  have hfresh := h.fresh
  rw [List.map_append, List.nodup_append] at hfresh
  exact hfresh.2.2 _ (List.mem_map_of_mem hs) _ (List.mem_map_of_mem hr)

/-- Different calls get different ids. -/
theorem rename_inj {r : Span} (hs : Below spans c s) (hr : Below spans c r)
    (heq : (rename s).spanId = (rename r).spanId) : s = r := by
  obtain ⟨calls, -, hcalls, hperm⟩ := h.calls
  have hfresh := h.fresh
  rw [List.map_append, List.nodup_append, (hperm.map Span.spanId).nodup_iff, List.map_map] at hfresh
  exact List.inj_on_of_nodup_map hfresh.2.1 ((hcalls s).mpr hs) ((hcalls r).mpr hr) heq

/-- What a new span is called by. -/
theorem exists_caller (hs : Below spans c s) (hcall : c.isRoot = false) :
    (rename s).isRoot = false ∧ (s = c ∨ ∃ caller, Below spans c caller ∧
      s.parentSpanId = caller.spanId ∧ (rename s).parentSpanId = (rename caller).spanId) := by
  cases hs with
  | self => exact ⟨Span.isRoot_of_parentSpanId h.top ▸ hcall, .inl rfl⟩
  | @call _ caller hmem hroot hparent hrest =>
    have hlink := h.call s caller (.call hmem hroot hparent hrest) hrest hparent
    refine ⟨Bool.eq_false_iff.mpr fun hs => ?_, .inr ⟨caller, hrest, hparent, hlink⟩⟩
    exact h.named _ (h.rename_mem hrest) (hlink.symm.trans (Span.isRoot_iff.mp hs))

theorem exists_lineage (hspans : FormsTree spans) (hc : c ∈ spans) (hcall : c.isRoot = false)
    (hs : Below spans c s) : ∃ line, Lineage (spans ++ copy) (rename s :: line) := by
  induction hs with
  | self =>
    obtain ⟨p, hp, hparent⟩ := hspans.exists_caller hc hcall
    obtain ⟨line, hline⟩ := hspans.reaches p hp
    exact ⟨p :: line, .call (List.mem_append_right _ (h.rename_mem .self))
      (h.exists_caller .self hcall).1 (h.top.trans hparent)
      (hline.mono (List.subset_append_left _ _))⟩
  | @call s caller hmem hroot hparent hrest ih =>
    obtain ⟨line, hline⟩ := ih
    have hs : Below spans c s := .call hmem hroot hparent hrest
    exact ⟨_, .call (List.mem_append_right _ (h.rename_mem hs)) (h.exists_caller hs hcall).1
      (h.call s caller hs hrest hparent) hline⟩

/-- The spans with one more iteration form a tree again. -/
theorem formsTree (hspans : FormsTree spans) (hc : c ∈ spans) (hcall : c.isRoot = false) :
    FormsTree (spans ++ copy) where
  ne_parent s hs := by
    rcases List.mem_append.mp hs with hs | hs
    · exact hspans.ne_parent s hs
    · obtain ⟨r, hr, rfl⟩ := h.mem_copy.mp hs
      obtain ⟨-, rfl | ⟨caller, hcaller, hparent, hlink⟩⟩ := h.exists_caller hr hcall
      · obtain ⟨p, hp, hparent⟩ := hspans.exists_caller hc hcall
        rw [h.top, hparent]
        exact (h.spanId_ne hp hs).symm
      · rw [hlink]
        intro heq
        obtain rfl := h.rename_inj hr hcaller heq
        exact hspans.ne_parent r (hr.mem hc) hparent.symm
  distinct := h.fresh
  one_root := by
    have hnone : copy.countP Span.isRoot = 0 := by
      refine List.countP_eq_zero.mpr fun s hs hroot => ?_
      obtain ⟨r, hr, rfl⟩ := h.mem_copy.mp hs
      exact Bool.false_ne_true ((h.exists_caller hr hcall).1.symm.trans hroot)
    rw [List.countP_append, hspans.one_root, hnone]
  reaches s hs := by
    rcases List.mem_append.mp hs with hs | hs
    · obtain ⟨line, hline⟩ := hspans.reaches s hs
      exact ⟨line, hline.mono (List.subset_append_left _ _)⟩
    · obtain ⟨r, hr, rfl⟩ := h.mem_copy.mp hs
      exact h.exists_lineage hspans hc hcall hr

/-! ### The tree with one more iteration -/

section
open CallTree
variable {t u : CallTree} {top j : Nat} (hu : u.Regular) (hu' : u.Named)
  (hspans : u.thaw.spans = spans) (ht : t.Regular) (ht' : t.Named)
  (hmore : t.thaw.spans = spans ++ copy) (htop : top < u.size) (hc : u.span top = c)
include hu hu' hspans htop hc

omit h in
theorem below_iff (hj : j < u.size) : top ∈ u.path j ↔ Below spans c (u.span j) := by
  rw [← hspans, ← hc, hu'.below_iff hu.toRooted htop hj]

include hmore

/-- Each node below the call has a node for its new span. -/
theorem exists_twin : ∃ twin : Nat → Nat, ∀ j < u.size, top ∈ u.path j →
    twin j < t.size ∧ t.span (twin j) = rename (u.span j) := by
  have htwins : ∀ j, ∃ k, j < u.size → top ∈ u.path j → k < t.size ∧ t.span k = rename (u.span j) := by
    intro j
    by_cases hj : j < u.size ∧ top ∈ u.path j
    · have hbelow := (below_iff hu hu' hspans htop hc hj.1).mp hj.2
      obtain ⟨k, hk⟩ := mem_spans_thaw.mp (hmore ▸ List.mem_append_right spans (h.rename_mem hbelow))
      exact ⟨k, fun _ _ => hk⟩
    · exact ⟨0, fun h₁ h₂ => absurd ⟨h₁, h₂⟩ hj⟩
  choose twin htwin using htwins
  exact ⟨twin, htwin⟩

include ht ht'

theorem iterated (hcall : c.isRoot = false) : ∃ twin, Iterated twin top u t := by
  obtain ⟨twin, htwin⟩ := h.exists_twin hu hu' hspans hmore htop hc
  have hembeds := hu'.embeds_append ht' hu.toRooted ht.toRooted hspans hmore
  have hbelow : ∀ j < u.size, top ∈ u.path j → Below spans c (u.span j) := fun j hj =>
    (below_iff hu hu' hspans htop hc hj).mp
  have hold : ∀ j < u.size, u.span j ∈ spans := fun j hj =>
    hspans ▸ mem_spans_thaw.mpr ⟨j, hj, rfl⟩
  have htop_twin := htwin top htop (u.mem_path_self top)
  have hne : top ≠ u.root := fun heq =>
    Bool.false_ne_true (hcall.symm.trans (hc ▸ (hu'.root_iff top htop).mpr heq))
  refine ⟨twin, { hembeds with
    new := fun j hj hjc => ?_, exists_node := fun k hk hnew => ?_, top := ?_,
    call := fun j parent hparent hp => ?_, operation := fun j hj hjc => ?_ }⟩
  · refine Nat.le_of_not_lt fun hlt => ?_
    have hspan := (hembeds.span _ hlt).trans (htwin j hj hjc).2
    exact h.spanId_ne (hold _ hlt) (h.rename_mem (hbelow j hj hjc)) (congrArg Span.spanId hspan)
  · have hmem : t.span k ∈ spans ++ copy := hmore ▸ mem_spans_thaw.mpr ⟨k, hk, rfl⟩
    rcases List.mem_append.mp hmem with hk_old | hk_copy
    · obtain ⟨j, hj, heq⟩ := mem_spans_thaw.mp (hspans ▸ hk_old)
      have hkj : k = j := ht'.distinct k hk j (hembeds.lt j hj)
        (congrArg Span.spanId (heq.symm.trans (hembeds.span j hj)))
      exact absurd (hkj ▸ hnew) (Nat.not_le_of_lt hj)
    · obtain ⟨r, hr, heq⟩ := h.mem_copy.mp hk_copy
      obtain ⟨j, hj, rfl⟩ := mem_spans_thaw.mp (hspans ▸ hr.mem (hc ▸ hold top htop))
      have hjc := (below_iff hu hu' hspans htop hc hj).mpr hr
      exact ⟨j, hj, hjc, ht'.distinct _ (htwin j hj hjc).1 k hk
        (congrArg Span.spanId ((htwin j hj hjc).2.trans heq))⟩
  · obtain ⟨p, hp, hparent⟩ := hu.exists_parent htop hne
    refine ⟨p, hparent, ht'.parent_of_caller ht.toRooted htop_twin.1 (hembeds.lt p hp) ?_ ?_⟩
    · rw [htop_twin.2, hc]
      exact (h.exists_caller .self hcall).1
    · rw [htop_twin.2, hc, h.top, ← hc, hu'.caller top p hparent, hembeds.span p hp, id]
  · have hj := Rooted.lt_size_of_parent hparent
    have hp_lt := hu.parent_lt hparent
    have hjc : top ∈ u.path j := by
      rw [hu.path_of_parent hparent]
      exact .tail _ hp
    have hlink := h.call _ _ (hbelow j hj hjc) (hbelow parent hp_lt hp) (hu'.caller j parent hparent)
    refine ht'.parent_of_caller ht.toRooted (htwin j hj hjc).1 (htwin parent hp_lt hp).1 ?_ ?_
    · rw [(htwin j hj hjc).2]
      exact (h.exists_caller (hbelow j hj hjc) hcall).1
    · rw [(htwin j hj hjc).2, (htwin parent hp_lt hp).2, hlink]
  · rw [(htwin j hj hjc).2]
    exact h.operation _ (hbelow j hj hjc)

end

end Iteration

/-! ### Several iterations of one call -/

/-- No call is below itself. -/
theorem FormsTree.not_below_caller (h : FormsTree spans) (hc : c ∈ spans) (hcaller : caller ∈ spans)
    (hcall : c.isRoot = false) (hparent : c.parentSpanId = caller.spanId) :
    ¬ Below spans c caller := by
  obtain ⟨t, ht⟩ := CallTree.exists_ofSpans h
  obtain ⟨hregular, hnamed, rfl⟩ := CallTree.ofSpans_eq_ok_iff.mp ht
  obtain ⟨i, hi, rfl⟩ := CallTree.mem_spans_thaw.mp hc
  obtain ⟨j, hj, rfl⟩ := CallTree.mem_spans_thaw.mp hcaller
  rw [hnamed.below_iff hregular.toRooted hi hj]
  exact hregular.not_mem_path_parent (hnamed.parent_of_caller hregular.toRooted hi hj hcall hparent)

/-- Iterations of a call are not below it. -/
theorem below_append_iff {copies : List (List Span)} (hspans : FormsTree spans) (hc : c ∈ spans)
    (hcall : c.isRoot = false) (hcopies : ∀ copy ∈ copies, ∃ rename, Iteration spans c rename copy) :
    Below (spans ++ copies.flatten) c s ↔ Below spans c s := by
  constructor
  · intro h
    induction h with
    | self => exact .self
    | @call s caller hs hroot hparent _ ih =>
      rcases List.mem_append.mp hs with hs | hs
      · exact .call hs hroot hparent ih
      · obtain ⟨copy, hcopy, hs⟩ := List.mem_flatten.mp hs
        obtain ⟨rename, h⟩ := hcopies copy hcopy
        obtain ⟨r, hr, rfl⟩ := h.mem_copy.mp hs
        have hcaller := ih.mem hc
        obtain ⟨-, rfl | ⟨q, hq, -, hlink⟩⟩ := h.exists_caller hr hcall
        · rw [h.top] at hparent
          exact absurd ih (hspans.not_below_caller hc hcaller hcall hparent)
        · exact absurd (hparent.symm.trans hlink) (h.spanId_ne hcaller (h.rename_mem hq))
  · intro h
    induction h with
    | self => exact .self
    | call hs hroot hparent _ ih => exact .call (List.mem_append_left _ hs) hroot hparent ih

/-- A loop of any number of iterations. -/
theorem Unrolled.of_copies {copies : List (List Span)} (hspans : FormsTree spans) (hc : c ∈ spans)
    (hcall : c.isRoot = false) (hcopies : ∀ copy ∈ copies, ∃ rename, Iteration spans c rename copy)
    (hfresh : ((spans ++ copies.flatten).map Span.spanId).Nodup) :
    Unrolled spans (spans ++ copies.flatten) := by
  induction copies using List.reverseRecOn with
  | nil => simpa using Unrolled.refl
  | append_singleton copies copy ih =>
    obtain ⟨rename, h⟩ := hcopies copy (by simp)
    have hold := fun copy hcopy => hcopies copy (List.mem_append_left _ hcopy)
    have hbelow := fun s => below_append_iff (s := s) hspans hc hcall hold
    rw [List.flatten_append, List.flatten_singleton, ← List.append_assoc] at hfresh ⊢
    have hprefix := hfresh
    rw [List.map_append, List.nodup_append] at hprefix
    have hnext : Iteration (spans ++ copies.flatten) c rename copy := {
      calls := by simpa only [hbelow] using h.calls
      operation := by simpa only [hbelow] using h.operation
      top := h.top
      call := by simpa only [hbelow] using h.call
      fresh := hfresh
      named := h.named }
    exact .iterate (ih hold hprefix.1) (List.mem_append_left _ hc) hcall hnext

/-! ### Reduction -/

namespace Trace
variable {r : Trace} {depthLimit : Nat}

/-- One more iteration changes nothing. -/
theorem reduce?_append_iteration (hspans : FormsTree spans) (hc : c ∈ spans)
    (hcall : c.isRoot = false) (h : Iteration spans c rename copy)
    (hr : (ofSpans spans).reduce? depthLimit = .ok r) :
    (ofSpans (spans ++ copy)).reduce? depthLimit = .ok r := by
  obtain ⟨u, v, f, hu, hv, rfl⟩ := reduce?_eq_ok_iff.mp hr
  rw [spans_ofSpans] at hu
  obtain ⟨hregular, hnamed, hu_spans⟩ := CallTree.ofSpans_eq_ok_iff.mp hu
  obtain ⟨t, ht⟩ := CallTree.exists_ofSpans (h.formsTree hspans hc hcall)
  obtain ⟨ht_regular, ht_named, ht_spans⟩ := CallTree.ofSpans_eq_ok_iff.mp ht
  obtain ⟨top, htop, hc_span⟩ := CallTree.mem_spans_thaw.mp (hu_spans ▸ hc)
  obtain ⟨twin, htwins⟩ := h.iterated hregular hnamed hu_spans ht_regular ht_named ht_spans htop
    hc_span hcall
  rw [← spans_ofSpans (spans ++ copy)] at ht
  obtain ⟨w, g, hw, hg⟩ := exists_reduce? depthLimit ht
  rw [hw, hv.eq_of_spans hg hnamed ht_named (htwins.kept_eq hregular ht_regular depthLimit).symm]

theorem reduce?_unrolled (depthLimit : Nat) (hspans : FormsTree spans)
    (h : Unrolled spans more) : ∃ r, (ofSpans spans).reduce? depthLimit = .ok r ∧
      (ofSpans more).reduce? depthLimit = .ok r := by
  suffices FormsTree more ∧ ∀ r, (ofSpans spans).reduce? depthLimit = .ok r →
      (ofSpans more).reduce? depthLimit = .ok r by
    obtain ⟨tree, htree⟩ := CallTree.exists_ofSpans hspans
    rw [← spans_ofSpans spans] at htree
    obtain ⟨u, -, hu, -⟩ := exists_reduce? depthLimit htree
    exact ⟨u.flatten, hu, this.2 _ hu⟩
  induction h with
  | refl => exact ⟨hspans, fun _ hr => hr⟩
  | iterate _ hc hcall hcopy ih =>
    obtain ⟨hmore, hsame⟩ := ih
    exact ⟨hcopy.formsTree hmore hc hcall, fun r hr =>
      reduce?_append_iteration hmore hc hcall hcopy (hsame r hr)⟩

/-- An iteration: the root calls `A`, which calls `B`. -/
def loopBody (id : String) : List Span := [
  { spanId := id, parentSpanId := "main", operationHash := "A" },
  { spanId := id ++ "1", parentSpanId := id, operationHash := "B" }]

def firstIteration : List Span := { spanId := "main", operationHash := "main" } :: loopBody "a"

theorem mem_loopBody_iff : s ∈ loopBody "a" ↔
    Below firstIteration { spanId := "a", parentSpanId := "main", operationHash := "A" } s := by
  constructor
  · intro hs
    rcases List.mem_pair.mp hs with rfl | rfl
    · exact .self
    · exact .call (by decide) (by decide) (by decide) .self
  · intro h
    cases h with
    | self => exact List.mem_cons_self
    | call hs hroot =>
      rcases List.mem_cons.mp hs with rfl | hs
      · exact absurd hroot (by decide)
      · exact hs

theorem iteration_loopBody {id : String} (hid : id ≠ "")
    (hfresh : ((firstIteration ++ loopBody id).map Span.spanId).Nodup) : ∃ rename,
      Iteration firstIteration { spanId := "a", parentSpanId := "main", operationHash := "A" } rename
        (loopBody id) := by
  refine ⟨fun s => { s with
    spanId := if s.operationHash = "A" then id else id ++ "1"
    parentSpanId := if s.operationHash = "A" then "main" else id }, {
      calls := ⟨loopBody "a", by decide, fun s => mem_loopBody_iff, .refl _⟩
      operation := fun s _ => rfl
      top := rfl
      call := fun s caller hs hcaller hparent => ?_
      fresh := hfresh
      named := by simp [loopBody, hid] }⟩
  rcases List.mem_pair.mp (mem_loopBody_iff.mpr hs) with rfl | rfl <;>
    rcases List.mem_pair.mp (mem_loopBody_iff.mpr hcaller) with rfl | rfl
  · simp at hparent
  · simp at hparent
  · rfl
  · simp at hparent

theorem formsTree_firstIteration : FormsTree firstIteration := by
  have hok : (CallTree.ofSpans firstIteration).isOk = true := by
    rw [CallTree.ofSpans_of_passes (by decide)]
    decide +kernel
  cases htree : CallTree.ofSpans firstIteration with
  | error fault => simp [htree, Except.isOk, Except.toBool] at hok
  | ok tree => exact CallTree.exists_ofSpans_iff.mp ⟨tree, htree⟩

theorem reduce?_unrolled_three_iterations : ∃ r,
    (ofSpans firstIteration).reduce? 1 = .ok r ∧
      (ofSpans (firstIteration ++ [loopBody "b", loopBody "c"].flatten)).reduce? 1 = .ok r := by
  refine reduce?_unrolled 1 formsTree_firstIteration (.of_copies formsTree_firstIteration
    (c := { spanId := "a", parentSpanId := "main", operationHash := "A" }) (by decide) (by decide)
    (fun copy hcopy => ?_) (by decide))
  rcases List.mem_pair.mp hcopy with rfl | rfl
  · exact iteration_loopBody (by decide) (by decide)
  · exact iteration_loopBody (by decide) (by decide)

end Trace
end CallTrace
