import CallTrace.Proofs.Tree.Reconstruction

/-! # What reconstruction answers

Reconstruction goes over spans in the order in which they stand, and has four moments to give up:
at the first span that the census does not take, when no root was seen, when parents are missing,
and when the walk from the root does not come by every node.

As long as no span is its own parent and no id is repeated, the answer does not hang on the order.
It can be told from how many roots there are, how many spans name a caller that is not
there (`orphans`), and whether a line of callers leads up from every span (`Verdict`,
`CallTree.verdict_ofSpans`).  `CallTree.ofSpans_outcomes` says this for each answer, and that spans are
accepted only if they are such. -/

namespace CallTrace
variable {spans : List Span} {s : Span} {e : InvalidTrace}

theorem orphans_eq_zero_iff : orphans spans = 0 ↔
    ∀ s ∈ spans, s.parentSpanId ≠ "" → s.parentSpanId ∈ spans.map Span.spanId := by
  simp only [orphans, List.countP_eq_zero, Bool.and_eq_true, Bool.not_eq_true',
    decide_eq_true_eq, Bool.eq_false_iff, ne_eq, Span.isRoot_iff, not_and, Decidable.not_not]

theorem FormsTree.orphans_eq_zero (h : FormsTree spans) : orphans spans = 0 := by
  refine orphans_eq_zero_iff.mpr fun s hs hcall => ?_
  obtain ⟨caller, hmem, hname⟩ := h.exists_caller hs
    (Bool.eq_false_iff.mpr (mt Span.isRoot_iff.mp hcall))
  exact List.mem_map.mpr ⟨caller, hmem, hname.symm⟩

/-- What reconstruction answers to spans whose ids tell them apart. -/
inductive Verdict (spans : List Span) : Except InvalidTrace CallTree → Prop
  | multipleRoots : 2 ≤ spans.countP Span.isRoot → Verdict spans (.error .multipleRoots)
  | noRoot : spans.countP Span.isRoot = 0 → Verdict spans (.error .noRoot)
  | disconnected : spans.countP Span.isRoot = 1 → 0 < orphans spans →
      Verdict spans (.error (.disconnected (orphans spans)))
  | cycle : spans.countP Span.isRoot = 1 → orphans spans = 0 →
      (∃ s ∈ spans, ¬ ∃ line, Lineage spans (s :: line)) → Verdict spans (.error .cycle)
  | accepted {t : CallTree} : FormsTree spans → Verdict spans (.ok t)

namespace Verdict
variable {answer : Except InvalidTrace CallTree} (h : Verdict spans answer)
include h

theorem multipleRoots_iff : answer = .error .multipleRoots ↔ 2 ≤ spans.countP Span.isRoot := by
  cases h with
  | multipleRoots htwo => exact iff_of_true rfl htwo
  | accepted h => exact iff_of_false nofun (by simp [h.one_root])
  | _ => exact iff_of_false nofun (by omega)

theorem noRoot_iff : answer = .error .noRoot ↔ spans.countP Span.isRoot = 0 := by
  cases h with
  | noRoot hnone => exact iff_of_true rfl hnone
  | accepted h => exact iff_of_false nofun (by simp [h.one_root])
  | _ => exact iff_of_false nofun (by omega)

theorem disconnected_iff (hroot : spans.countP Span.isRoot = 1) (n : Nat) :
    answer = .error (.disconnected n) ↔ n = orphans spans ∧ 0 < n := by
  cases h with
  | disconnected _ hpos =>
    rw [Except.error.injEq, InvalidTrace.disconnected.injEq, eq_comm]
    exact ⟨fun heq => ⟨heq, heq ▸ hpos⟩, And.left⟩
  | accepted h =>
    have := h.orphans_eq_zero
    exact iff_of_false nofun (by omega)
  | _ => exact iff_of_false nofun (by omega)

theorem cycle_iff (hroot : spans.countP Span.isRoot = 1) : answer = .error .cycle ↔
    orphans spans = 0 ∧ ∃ s ∈ spans, ¬ ∃ line, Lineage spans (s :: line) := by
  cases h with
  | cycle _ hzero hline => exact iff_of_true rfl ⟨hzero, hline⟩
  | accepted h => exact iff_of_false nofun fun ⟨_, s, hs, hline⟩ => hline (h.reaches s hs)
  | _ => exact iff_of_false nofun (by omega)

end Verdict

/-! ### Where the census stops -/

namespace Census
variable {c : Census}

theorem note_eq_error (h : c.Of spans) (herror : c.note spans.length s = .error e) :
    s.spanId = s.parentSpanId ∨ s.spanId ∈ spans.map Span.spanId ∨
      s.isRoot = true ∧ 0 < spans.countP Span.isRoot ∧ e = .multipleRoots := by
  simp only [note, h.contains_iff, Bool.and_eq_true, h.isSome_root_iff] at herror
  split at herror
  · next hself => exact .inl hself
  split at herror
  · next hold => exact .inr (.inl hold)
  split at herror
  · next hroot => exact .inr (.inr ⟨hroot.1, hroot.2, (Except.error.inj herror).symm⟩)
  · cases herror

/-- The census is taken up to the span that it stops at. -/
theorem exists_stop (herror : Census.ofSpans spans = .error e) :
    ∃ before s after c, spans = before ++ s :: after ∧ Of c before ∧
      c.note before.length s = .error e := by
  induction spans using List.reverseRecOn with
  | nil => cases herror
  | append_singleton spans s ih =>
    rw [ofSpans_append_singleton] at herror
    cases hc : Census.ofSpans spans with
    | error e' =>
      rw [hc] at herror
      obtain rfl : e' = e := Except.error.inj herror
      obtain ⟨before, r, after, c, rfl, hof, hnote⟩ := ih hc
      exact ⟨before, r, after ++ [s], c, by simp, hof, hnote⟩
    | ok c =>
      rw [hc] at herror
      exact ⟨spans, s, [], c, rfl, (ofSpans_eq_ok hc).1, herror⟩

/-- Spans with ids of their own are stopped at by the second root only. -/
theorem multipleRoots_of_ofSpans (hself : ∀ s ∈ spans, s.spanId ≠ s.parentSpanId)
    (hdistinct : (spans.map Span.spanId).Nodup) (herror : Census.ofSpans spans = .error e) :
    e = .multipleRoots ∧ 2 ≤ spans.countP Span.isRoot := by
  obtain ⟨before, s, after, c, rfl, hof, hnote⟩ := exists_stop herror
  rw [List.map_append, List.map_cons, List.nodup_append] at hdistinct
  rcases note_eq_error hof hnote with heq | hold | ⟨hroot, hpos, rfl⟩
  · exact absurd heq (hself s (by simp))
  · exact absurd rfl (hdistinct.2.2 _ hold _ List.mem_cons_self)
  · refine ⟨rfl, ?_⟩
    rw [List.countP_append, List.countP_cons_of_pos hroot]
    omega

end Census

namespace CallTree

theorem verdict_ofSpans (hself : ∀ s ∈ spans, s.spanId ≠ s.parentSpanId)
    (hdistinct : (spans.map Span.spanId).Nodup) : Verdict spans (ofSpans spans) := by
  cases hc : Census.ofSpans spans with
  | error e =>
    obtain ⟨rfl, hroots⟩ := Census.multipleRoots_of_ofSpans hself hdistinct hc
    rw [ofSpans, hc]
    exact .multipleRoots hroots
  | ok c =>
    obtain ⟨hof, hpasses⟩ := Census.ofSpans_eq_ok hc
    have hseen := hof.isSome_root_iff
    have hle := hpasses.roots_le
    rw [ofSpans_of_census hc]
    cases hroot : c.root with
    | none =>
      rw [hroot] at hseen
      exact .noRoot (Nat.eq_zero_of_not_pos (mt hseen.mpr Bool.false_ne_true))
    | some root =>
      have hone : spans.countP Span.isRoot = 1 := by
        have := hseen.mp (hroot ▸ rfl)
        omega
      dsimp only
      split
      · next hpos => exact .disconnected hone hpos
      · next hzero =>
        have hanswer : ofSpans spans = (c.link spans).finish root := by
          rw [ofSpans_of_census hc, hroot]
          exact if_neg hzero
        rw [← hanswer]
        cases hverdict : ofSpans spans with
        | ok t => exact .accepted (exists_ofSpans_iff.mp ⟨t, hverdict⟩)
        | error e =>
          obtain rfl := Arena.finish_eq_error (hanswer.symm.trans hverdict)
          refine .cycle hone (Nat.eq_zero_of_not_pos hzero) (by_contra fun hnone => ?_)
          obtain ⟨t, ht⟩ := exists_ofSpans ⟨hself, hdistinct, hone, fun s hs =>
            by_contra fun hline => hnone ⟨s, hs, hline⟩⟩
          cases hverdict.symm.trans ht

/-- Spans are accepted if they form a tree, in whatever order they stand.  If ids tell them apart,
what is wrong otherwise is told by the roots, by the callers that are missing and by the spans from
which no line of callers leads to the root. -/
theorem ofSpans_outcomes (spans : List Span) :
    ((∃ t, ofSpans spans = .ok t) ↔
      (∀ s ∈ spans, s.spanId ≠ s.parentSpanId) ∧ (spans.map Span.spanId).Nodup ∧
      spans.countP Span.isRoot = 1 ∧
      (∀ s ∈ spans, s.parentSpanId ≠ "" → s.parentSpanId ∈ spans.map Span.spanId) ∧
      ∀ s ∈ spans, ∃ line, Lineage spans (s :: line)) ∧
    (∀ spans', spans.Perm spans' →
      ((∃ t, ofSpans spans = .ok t) ↔ ∃ t, ofSpans spans' = .ok t)) ∧
    ((∀ s ∈ spans, s.spanId ≠ s.parentSpanId) → (spans.map Span.spanId).Nodup →
      (ofSpans spans = .error .multipleRoots ↔ 2 ≤ spans.countP Span.isRoot) ∧
      (ofSpans spans = .error .noRoot ↔ spans.countP Span.isRoot = 0) ∧
      (spans.countP Span.isRoot = 1 →
        (∀ n, ofSpans spans = .error (.disconnected n) ↔ n = orphans spans ∧ 0 < n) ∧
        (ofSpans spans = .error .cycle ↔
          orphans spans = 0 ∧ ∃ s ∈ spans, ¬ ∃ line, Lineage spans (s :: line)))) := by
  refine ⟨exists_ofSpans_iff.trans ⟨fun h => ?_, fun h => ?_⟩, fun spans' hperm => ?_, ?_⟩
  · exact ⟨h.ne_parent, h.distinct, h.one_root, orphans_eq_zero_iff.mp h.orphans_eq_zero, h.reaches⟩
  · obtain ⟨hself, hdistinct, hroot, -, hreaches⟩ := h
    exact ⟨hself, hdistinct, hroot, hreaches⟩
  · rw [exists_ofSpans_iff, exists_ofSpans_iff]
    exact ⟨fun h => h.perm hperm, fun h => h.perm hperm.symm⟩
  · intro hself hdistinct
    have hverdict := verdict_ofSpans hself hdistinct
    exact ⟨hverdict.multipleRoots_iff, hverdict.noRoot_iff, fun hroot =>
      ⟨hverdict.disconnected_iff hroot, hverdict.cycle_iff hroot⟩⟩

/-- Two spans miss their caller in the first list, though one of them comes before the root.  In the
second nobody misses it, and two spans call each other. -/
theorem ofSpans_outcomes_orphans_or_circle :
    let lost : List Span := [
      { spanId := "a", parentSpanId := "x" }, { spanId := "r" },
      { spanId := "b", parentSpanId := "r" }, { spanId := "c", parentSpanId := "y" }]
    let circle : List Span := [
      { spanId := "a", parentSpanId := "b" }, { spanId := "r" },
      { spanId := "b", parentSpanId := "a" }]
    ofSpans lost = .error (.disconnected 2) ∧
      ¬ (∃ t, ofSpans (circle.reverse) = .ok t) ∧ orphans circle = 0 ∧
      ∃ s ∈ circle, ¬ ∃ line, Lineage circle (s :: line) := by
  intro lost circle
  obtain ⟨-, -, hlost⟩ := ofSpans_outcomes lost
  obtain ⟨-, hperm, hcircle⟩ := ofSpans_outcomes circle
  obtain ⟨-, -, hlost⟩ := hlost (by decide) (by decide)
  obtain ⟨-, -, hcircle⟩ := hcircle (by decide) (by decide)
  have herror : ofSpans circle = .error .cycle := by
    rw [ofSpans_of_passes (by decide)]
    decide +kernel
  refine ⟨((hlost (by decide)).1 2).mpr (by decide), fun h => ?_, (hcircle (by decide)).2.mp herror⟩
  obtain ⟨t, ht⟩ := (hperm _ circle.reverse_perm.symm).mpr h
  cases herror.symm.trans ht

end CallTree
end CallTrace
