import CallTrace.Proofs.Tree.Links
import CallTrace.Tree.Reconstruction
import Mathlib.Data.List.Induction

/-! # The census of a list of spans

The census numbers the spans and knows the root (`Census.Of`).  It is taken of exactly those lists
in which no span is its own parent, no id is repeated and no two spans are roots
(`Census.exists_ofSpans`, `Census.ofSpans_eq_ok`).  Linking every node to the parent that the census
names gives an arena in order, whose links say what the census says
(`Census.Of.ordered_link`).

The census keeps its ids in a hash table, whose hashes no proof can compute.  What it tells is found
by searching the list itself just as well (`Census.Of.root_eq`, `Census.Of.link_eq`). -/

theorem Except.bind_eq_ok {ε α β : Type} {x : Except ε α} {f : α → Except ε β} {b : β} :
    (x >>= f) = .ok b ↔ ∃ a, x = .ok a ∧ f a = .ok b := by
  cases x with
  | error e => simp [bind, Except.bind]
  | ok a => simp [bind, Except.bind]

theorem List.bind_getElem?_append_singleton {α β : Type} (f : α → Option β) (l : List α) (a : α)
    (i : Nat) : (l ++ [a])[i]?.bind f = if i = l.length then f a else l[i]?.bind f := by
  by_cases hi : i = l.length <;> grind

theorem List.lt_length_of_bind_getElem? {α β : Type} {f : α → Option β} {l : List α} {i : Nat} {b : β}
    (h : l[i]?.bind f = some b) : i < l.length := by
  obtain ⟨a, ha, -⟩ := Option.bind_eq_some_iff.mp h
  exact (List.getElem?_eq_some_iff.mp ha).1

/-- What is found by what is true of the elements found is found by searching. -/
theorem Option.eq_findIdx? {α : Type} {o : Option Nat} {p : α → Bool} {l : List α}
    (h : ∀ id, o = some id ↔ ∃ a, l[id]? = some a ∧ p a = true) : o = l.findIdx? p := by
  cases hfind : l.findIdx? p with
  | some id =>
    obtain ⟨hlt, hid, -⟩ := List.findIdx?_eq_some_iff_getElem.mp hfind
    exact (h id).mpr ⟨l[id], List.getElem?_eq_getElem hlt, hid⟩
  | none =>
    refine Option.eq_none_iff_forall_ne_some.mpr fun id hid => ?_
    obtain ⟨a, ha, hpa⟩ := (h id).mp hid
    exact Bool.false_ne_true
      ((List.findIdx?_eq_none_iff.mp hfind a (List.mem_of_getElem? ha)).symm.trans hpa)

namespace CallTrace

/-- How many spans name a caller that is not there. -/
def orphans (spans : List Span) : Nat :=
  spans.countP fun s => !s.isRoot && decide (s.parentSpanId ∉ spans.map Span.spanId)

/-! ### The census -/

namespace Census
variable {c c' : Census} {spans : List Span} {s : Span}

/-- What a census says of the spans it was taken of. -/
structure Of (c : Census) (spans : List Span) : Prop where
  ids : ∀ key id, c.ids[key]? = some id ↔ ∃ s : Span, spans[id]? = some s ∧ s.spanId = key
  root : ∀ id, c.root = some id ↔ ∃ s : Span, spans[id]? = some s ∧ s.isRoot = true

/-- What a census stops at. -/
structure Passes (spans : List Span) : Prop where
  ne_parent : ∀ s ∈ spans, s.spanId ≠ s.parentSpanId
  distinct : (spans.map Span.spanId).Nodup
  roots_le : spans.countP Span.isRoot ≤ 1

instance : Decidable (Passes spans) :=
  decidable_of_iff ((∀ s ∈ spans, s.spanId ≠ s.parentSpanId) ∧ (spans.map Span.spanId).Nodup ∧
      spans.countP Span.isRoot ≤ 1)
    ⟨fun ⟨hself, hdistinct, hroots⟩ => ⟨hself, hdistinct, hroots⟩,
      fun ⟨hself, hdistinct, hroots⟩ => ⟨hself, hdistinct, hroots⟩⟩

theorem Of.contains_iff (h : c.Of spans) (key : String) :
    c.ids.contains key = true ↔ key ∈ spans.map Span.spanId := by
  rw [Std.HashMap.contains_eq_isSome_getElem?, Option.isSome_iff_exists, List.mem_map]
  simp only [h.ids]
  constructor
  · rintro ⟨id, s, hs, rfl⟩
    exact ⟨s, List.mem_of_getElem? hs, rfl⟩
  · rintro ⟨s, hs, rfl⟩
    obtain ⟨id, hid⟩ := List.mem_iff_getElem?.mp hs
    exact ⟨id, s, hid, rfl⟩

theorem Of.isSome_root_iff (h : c.Of spans) :
    c.root.isSome = true ↔ 0 < spans.countP Span.isRoot := by
  rw [Option.isSome_iff_exists, List.countP_pos_iff]
  simp only [h.root, List.mem_iff_getElem?]
  constructor
  · rintro ⟨id, s, hs, hroot⟩
    exact ⟨s, ⟨id, hs⟩, hroot⟩
  · rintro ⟨s, ⟨id, hs⟩, hroot⟩
    exact ⟨id, s, hs, hroot⟩

theorem Of.countP_isOrphan (h : c.Of spans) : spans.countP c.isOrphan = orphans spans := by
  refine List.countP_congr fun s _ => ?_
  simp only [isOrphan, Bool.and_eq_true, Bool.not_eq_true', Bool.eq_false_iff, ne_eq,
    h.contains_iff, decide_eq_true_eq]

theorem note_eq_ok (h : c.Of spans) : c.note spans.length s = .ok c' ↔
    s.spanId ≠ s.parentSpanId ∧ s.spanId ∉ spans.map Span.spanId ∧
      (s.isRoot = true → spans.countP Span.isRoot = 0) ∧
      c' = ⟨c.ids.insert s.spanId spans.length, if s.isRoot then some spans.length else c.root⟩ := by
  simp only [note, h.contains_iff, Bool.and_eq_true, h.isSome_root_iff]
  by_cases hself : s.spanId = s.parentSpanId
  · simp [hself]
  by_cases hold : s.spanId ∈ spans.map Span.spanId
  · simp [hself, hold]
  by_cases hroot : s.isRoot = true ∧ 0 < spans.countP Span.isRoot
  · rw [if_neg hself, if_neg hold, if_pos hroot]
    exact ⟨nofun, fun h => absurd (h.2.2.1 hroot.1) (Nat.ne_of_gt hroot.2)⟩
  · have hfirst : s.isRoot = true → spans.countP Span.isRoot = 0 := fun h =>
      Nat.eq_zero_of_not_pos fun hpos => hroot ⟨h, hpos⟩
    rw [if_neg hself, if_neg hold, if_neg hroot, Except.ok.injEq]
    exact ⟨fun h => ⟨hself, hold, hfirst, h.symm⟩, fun h => h.2.2.2.symm⟩

theorem Of.insert (h : c.Of spans) (hnew : s.spanId ∉ spans.map Span.spanId)
    (hroot : s.isRoot = true → spans.countP Span.isRoot = 0) :
    Of ⟨c.ids.insert s.spanId spans.length, if s.isRoot then some spans.length else c.root⟩
      (spans ++ [s]) where
  ids key id := by
    rw [Std.HashMap.getElem?_insert]
    have hid := h.ids key id
    by_cases hkey : s.spanId = key
    · have hno : ∀ r, spans[id]? = some r → r.spanId ≠ key := fun r hr heq =>
        hnew (List.mem_map.mpr ⟨r, List.mem_of_getElem? hr, heq.trans hkey.symm⟩)
      grind
    · grind
  root id := by
    have hid := h.root id
    by_cases hs : s.isRoot = true
    · have hno : ∀ r, spans[id]? = some r → ¬ r.isRoot = true := fun r hr =>
        List.countP_eq_zero.mp (hroot hs) r (List.mem_of_getElem? hr)
      grind
    · grind

theorem ofSpans_append_singleton : Census.ofSpans (spans ++ [s])
    = Census.ofSpans spans >>= fun c => c.note spans.length s := by
  simp [Census.ofSpans, List.zipIdx_append]

theorem ofSpans_eq_ok (hok : Census.ofSpans spans = .ok c) : c.Of spans ∧ Passes spans := by
  induction spans using List.reverseRecOn generalizing c with
  | nil =>
    obtain rfl := Except.ok.inj hok
    exact ⟨⟨by simp, by simp⟩, by simp, by simp, by simp⟩
  | append_singleton spans s ih =>
    rw [ofSpans_append_singleton] at hok
    obtain ⟨c, hc, hnote⟩ := Except.bind_eq_ok.mp hok
    obtain ⟨hof, hpasses⟩ := ih hc
    obtain ⟨hself, hnew, hroot, rfl⟩ := (note_eq_ok hof).mp hnote
    refine ⟨hof.insert hnew hroot, ?_, ?_, ?_⟩
    · intro r hr
      rcases List.mem_append.mp hr with hr | hr
      · exact hpasses.ne_parent r hr
      · exact List.mem_singleton.mp hr ▸ hself
    · rw [List.map_append, List.nodup_append]
      refine ⟨hpasses.distinct, by simp, ?_⟩
      rintro _ hold _ hid rfl
      rw [List.map_singleton, List.mem_singleton] at hid
      exact hnew (hid ▸ hold)
    · have := hpasses.roots_le
      rw [List.countP_append, List.countP_singleton]
      split
      · next hs =>
        have := hroot hs
        omega
      · omega

theorem exists_ofSpans (h : Passes spans) : ∃ c, Census.ofSpans spans = .ok c := by
  induction spans using List.reverseRecOn with
  | nil => exact ⟨_, rfl⟩
  | append_singleton spans s ih =>
    have hdistinct := h.distinct
    have hroots := h.roots_le
    rw [List.map_append, List.nodup_append] at hdistinct
    rw [List.countP_append, List.countP_singleton] at hroots
    obtain ⟨c, hc⟩ := ih ⟨fun r hr => h.ne_parent r (List.mem_append_left _ hr), hdistinct.1,
      by omega⟩
    have hof := (ofSpans_eq_ok hc).1
    rw [ofSpans_append_singleton, hc]
    refine ⟨_, (note_eq_ok hof).mpr ⟨h.ne_parent s (by simp), ?_, fun hs => ?_, rfl⟩⟩
    · exact fun hmem => hdistinct.2.2 _ hmem _ (by simp) rfl
    · rw [if_pos hs] at hroots
      omega

theorem Of.parent?_eq_some_iff (h : c.Of spans) {id : Nat} : c.parent? s = some id ↔
    s.isRoot = false ∧ ∃ p, spans[id]? = some p ∧ p.spanId = s.parentSpanId := by
  unfold parent?
  cases hs : s.isRoot with
  | true => simp
  | false => simp [h.ids]

theorem Of.root_eq (h : c.Of spans) : c.root = spans.findIdx? Span.isRoot :=
  Option.eq_findIdx? h.root

/-- The node of the calling span, looked for in the list itself. -/
def callerIn (spans : List Span) (s : Span) : Option Nat :=
  if s.isRoot then none else spans.findIdx? fun p => p.spanId = s.parentSpanId

theorem Of.parent?_eq (h : c.Of spans) : c.parent? s = callerIn spans s := by
  unfold parent? callerIn
  split
  · rfl
  · exact Option.eq_findIdx? (by simpa using h.ids s.parentSpanId)

/-! ### Linking the nodes -/

/-- The nodes of the spans, linked to their parents. -/
def link (c : Census) (spans : List Span) : Arena :=
  spans.zipIdx.foldl (fun a (s, id) => a.link c s id) (spans.foldl Arena.add {})

/-- The nodes of the spans, linked to the parents that the list itself tells. -/
def linked (spans : List Span) : Arena :=
  spans.zipIdx.foldl (fun a (s, id) => match callerIn spans s with
    | some p => a.attach p id
    | none => a) (spans.foldl Arena.add {})

theorem Of.link_eq (h : c.Of spans) : c.link spans = linked spans := by
  simp only [link, Arena.link, h.parent?_eq]
  rfl

theorem foldl_add_bare (spans : List Span) :
    (spans.foldl Arena.add {}).spans = spans ∧
      (∀ id, (spans.foldl Arena.add {}).children id = []) ∧
      ∀ id, (spans.foldl Arena.add {}).parent id = none := by
  induction spans using List.reverseRecOn with
  | nil => exact ⟨rfl, by simp [Arena.children], by simp [Arena.parent]⟩
  | append_singleton spans s ih => simp [ih]

/-- In `linked` the nodes of the first spans are linked to their parents. -/
structure Links (c : Census) (nodes : Arena) (spans : List Span) (linked : Arena) : Prop where
  ordered : linked.Ordered
  size_eq : linked.size = nodes.size
  spans_eq : linked.spans = nodes.spans
  parent_eq : ∀ id, linked.parent id = spans[id]?.bind c.parent?

theorem Links.link {nodes linked : Arena} (h : Links c nodes spans linked)
    (hlength : spans.length < nodes.size) (hparent : ∀ id, c.parent? s = some id → id < nodes.size) :
    Links c nodes (spans ++ [s]) (linked.link c s spans.length) := by
  have hget : ∀ id, (spans ++ [s])[id]?.bind c.parent?
      = if id = spans.length then c.parent? s else linked.parent id := fun id => by
    rw [List.bind_getElem?_append_singleton, h.parent_eq]
  have hfree : linked.parent spans.length = none := by
    rw [h.parent_eq, List.getElem?_eq_none (Nat.le_refl _)]
    rfl
  have hself : spans.length < linked.size := h.size_eq ▸ hlength
  rw [Arena.link]
  split
  · next above habove =>
    refine ⟨h.ordered.attach (h.size_eq ▸ hparent above habove) hself hfree fun child hchild => ?_,
      by rw [Arena.size_attach, h.size_eq], by rw [Arena.spans_attach, h.spans_eq], fun id => ?_⟩
    · rw [h.parent_eq] at hchild
      exact List.lt_length_of_bind_getElem? hchild
    · rw [Arena.parent_attach _ hself, hget, habove]
  · next hnone =>
    refine ⟨h.ordered, h.size_eq, h.spans_eq, fun id => ?_⟩
    rw [hget]
    split
    · next hid => rw [hid, hnone, hfree]
    · rfl

theorem links_foldl {nodes : Arena} (hlength : spans.length ≤ nodes.size)
    (hchildless : ∀ id, nodes.children id = []) (hfree : ∀ id, nodes.parent id = none)
    (hparent : ∀ s ∈ spans, ∀ id, c.parent? s = some id → id < nodes.size) :
    Links c nodes spans (spans.zipIdx.foldl (fun a (s, id) => a.link c s id) nodes) := by
  induction spans using List.reverseRecOn with
  | nil =>
    exact ⟨Arena.ordered_of (by simp [hchildless]) (by simp [hchildless, hfree]), rfl, rfl, hfree⟩
  | append_singleton spans s ih =>
    rw [List.length_append, List.length_singleton] at hlength
    have hold := ih (by omega) fun r hr => hparent r (List.mem_append_left _ hr)
    simpa [List.zipIdx_append] using hold.link (by omega) (hparent s (by simp))

theorem Of.ordered_link (h : c.Of spans) : (c.link spans).Ordered ∧ (c.link spans).spans = spans ∧
    ∀ id, (c.link spans).parent id = spans[id]?.bind c.parent? := by
  obtain ⟨hspans, hchildless, hfree⟩ := foldl_add_bare spans
  have hsize : (spans.foldl Arena.add {}).size = spans.length := by
    rw [← Arena.length_spans, hspans]
  have hlinks : Links c (spans.foldl Arena.add {}) spans (c.link spans) :=
    links_foldl (Nat.le_of_eq hsize.symm) hchildless hfree fun s _ id hid => by
      obtain ⟨-, p, hp, -⟩ := h.parent?_eq_some_iff.mp hid
      rw [hsize]
      exact (List.getElem?_eq_some_iff.mp hp).1
  exact ⟨hlinks.ordered, hlinks.spans_eq.trans hspans, hlinks.parent_eq⟩

end Census
end CallTrace
