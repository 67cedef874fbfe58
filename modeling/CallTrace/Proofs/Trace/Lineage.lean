import CallTrace.Span
import Mathlib.Data.List.Nodup
import Mathlib.Tactic.Choose

/-! # Spans that form a call tree

What it means for a list of spans to be one call tree can be said of the spans alone, without an
order among them: ids are distinct, one span is a root, and from every span a line of callers leads
up to it (`Lineage`, `FormsTree`).  There is one such line for each span (`Lineage.unique`). -/

namespace CallTrace

theorem Span.isRoot_iff {s : Span} : s.isRoot = true ↔ s.parentSpanId = "" := String.isEmpty_iff

/-- A span, its caller, the caller of that and so on up to a root. -/
inductive Lineage (spans : List Span) : List Span → Prop
  | root {s : Span} : s ∈ spans → s.isRoot = true → Lineage spans [s]
  | call {s caller : Span} {line : List Span} : s ∈ spans → s.isRoot = false →
      s.parentSpanId = caller.spanId → Lineage spans (caller :: line) →
      Lineage spans (s :: caller :: line)

/-- A call and everything that is called from it. -/
inductive Below (spans : List Span) (c : Span) : Span → Prop
  | self : Below spans c c
  | call {s caller : Span} : s ∈ spans → s.isRoot = false → s.parentSpanId = caller.spanId →
      Below spans c caller → Below spans c s

structure FormsTree (spans : List Span) : Prop where
  ne_parent : ∀ s ∈ spans, s.spanId ≠ s.parentSpanId
  distinct : (spans.map Span.spanId).Nodup
  one_root : spans.countP Span.isRoot = 1
  reaches : ∀ s ∈ spans, ∃ line, Lineage spans (s :: line)

variable {spans spans' : List Span} {line line' : List Span} {s c : Span}

theorem Lineage.mono (h : Lineage spans line) (hsub : spans ⊆ spans') : Lineage spans' line := by
  induction h with
  | root hs hroot => exact .root (hsub hs) hroot
  | call hs hcall hparent _ ih => exact .call (hsub hs) hcall hparent ih

theorem Lineage.mem (h : Lineage spans (s :: line)) : s ∈ spans := by cases h <;> assumption

theorem Lineage.unique (hdistinct : (spans.map Span.spanId).Nodup) (h : Lineage spans (s :: line))
    (h' : Lineage spans (s :: line')) : line = line' := by
  generalize hl : s :: line = l at h
  induction h generalizing s line line' with
  | root _ hroot =>
    obtain ⟨rfl, rfl⟩ := List.cons.inj hl
    cases h' with
    | root => rfl
    | call _ hcall => simp [hroot] at hcall
  | call _ hcall hparent hrest ih =>
    obtain ⟨rfl, rfl⟩ := List.cons.inj hl
    cases h' with
    | root _ hroot => simp [hroot] at hcall
    | call _ _ hparent' hrest' =>
      obtain rfl := List.inj_on_of_nodup_map hdistinct hrest.mem hrest'.mem
        (hparent.symm.trans hparent')
      rw [ih hrest' rfl]

theorem Below.mem (h : Below spans c s) (hc : c ∈ spans) : s ∈ spans := by
  cases h <;> assumption

namespace FormsTree

theorem perm (h : FormsTree spans) (hperm : spans.Perm spans') : FormsTree spans' where
  ne_parent s hs := h.ne_parent s (hperm.mem_iff.mpr hs)
  distinct := ((hperm.map Span.spanId).nodup_iff).mp h.distinct
  one_root := hperm.countP_eq Span.isRoot ▸ h.one_root
  reaches s hs := by
    obtain ⟨line, hline⟩ := h.reaches s (hperm.mem_iff.mpr hs)
    exact ⟨line, hline.mono hperm.subset⟩

theorem exists_caller (h : FormsTree spans) (hs : s ∈ spans) (hcall : s.isRoot = false) :
    ∃ caller ∈ spans, s.parentSpanId = caller.spanId := by
  obtain ⟨line, hline⟩ := h.reaches s hs
  cases hline with
  | root _ hroot => simp [hcall] at hroot
  | call _ _ hparent hrest => exact ⟨_, hrest.mem, hparent⟩

/-- Each place of the list is ranked by the number of callers above it. -/
theorem exists_rank (h : FormsTree spans) : ∃ rank : Nat → Nat, ∀ (id : Nat) s, spans[id]? = some s →
    s.isRoot = true ∧ rank id = 0 ∨ s.isRoot = false ∧ ∃ (above : Nat) (caller : Span),
      spans[above]? = some caller ∧ s.parentSpanId = caller.spanId ∧ rank id = rank above + 1 := by
  have hlines : ∀ id : Nat, ∃ n, ∀ s, spans[id]? = some s →
      ∃ line, Lineage spans (s :: line) ∧ line.length = n := by
    intro id
    cases hs : spans[id]? with
    | none => exact ⟨0, nofun⟩
    | some s =>
      obtain ⟨line, hline⟩ := h.reaches s (List.mem_of_getElem? hs)
      exact ⟨line.length, fun _ heq => Option.some.inj heq ▸ ⟨line, hline, rfl⟩⟩
  choose rank hrank using hlines
  refine ⟨rank, fun id s hs => ?_⟩
  obtain ⟨line, hline, hlength⟩ := hrank id s hs
  cases hline with
  | root _ hroot => exact .inl ⟨hroot, hlength.symm⟩
  | @call _ caller line _ hcall hparent hrest =>
    obtain ⟨above, habove⟩ := List.mem_iff_getElem?.mp hrest.mem
    obtain ⟨line', hline', hlength'⟩ := hrank above caller habove
    refine .inr ⟨hcall, above, caller, habove, hparent, ?_⟩
    rw [← hlength, ← hlength', hrest.unique h.distinct hline', List.length_cons]

end FormsTree
end CallTrace
