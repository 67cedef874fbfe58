import CallTrace.Proofs.Tree.Census
import Mathlib.Data.List.Basic

/-! # Building a tree while spans arrive

A tree can be put together in one pass (`CallTree.ofArrivals`).  A node is attached to its caller as
soon as both are there: at once if the caller came first, and otherwise it waits in an index under
the id of the caller until that arrives.

After some spans the arena has the links that their census tells, in order, and the index holds the
nodes whose caller has not come, each list in the order of the spans (`Arrivals.Of`).  In the end the
arena is the one that is linked afterwards in the order of the list, and what still waits are the
orphans.  So the pass gives the same tree or the same error as reconstruction
(`CallTree.ofArrivals_eq_ofSpans`), whatever the order in which spans arrive. -/

namespace CallTrace

/-- A span that names a caller of this id; a root names nobody. -/
def Span.names (caller : String) (s : Span) : Bool := !s.isRoot && s.parentSpanId = caller

theorem Span.names_eq_true {caller : String} {s : Span} :
    s.names caller = true ↔ s.isRoot = false ∧ s.parentSpanId = caller := by
  simp [names]

/-- The nodes of the spans that name a caller. -/
def naming (spans : List Span) (caller : String) : List Nat := spans.findIdxs (Span.names caller)

theorem mem_naming {spans : List Span} {caller : String} {id : Nat} : id ∈ naming spans caller ↔
    ∃ s, spans[id]? = some s ∧ s.isRoot = false ∧ s.parentSpanId = caller := by
  simp only [naming, List.mem_findIdxs_iff_exists_getElem_pos, ← Span.names_eq_true,
    List.getElem?_eq_some_iff]
  exact ⟨fun ⟨hlt, hs⟩ => ⟨_, ⟨hlt, rfl⟩, hs⟩, fun ⟨s, ⟨hlt, hs⟩, hnames⟩ => ⟨hlt, hs ▸ hnames⟩⟩

theorem naming_append_singleton (spans : List Span) (s : Span) (caller : String) :
    naming (spans ++ [s]) caller
      = naming spans caller ++ if s.names caller then [spans.length] else [] := by
  rw [naming, List.findIdxs_append, List.findIdxs_singleton, Nat.zero_add, naming]

theorem naming_append_of_eq_false {spans : List Span} {s : Span} {caller : String}
    (h : s.names caller = false) : naming (spans ++ [s]) caller = naming spans caller := by
  rw [naming_append_singleton, h, if_neg Bool.false_ne_true, List.append_nil]

/-! ### One pass -/

/-- A tree of which not all spans have come. -/
structure Arrivals where
  arena : Arena := {}
  /-- The node of each span id. -/
  known : Std.HashMap String Nat := {}
  /-- The nodes whose caller has not come, by its id. -/
  waiting : Std.HashMap String (List Nat) := {}
  root : Option Nat := none

namespace Arrivals

def waitingFor (a : Arrivals) (caller : String) : List Nat := a.waiting.getD caller []

/-- Adds a node and attaches those that waited for it. -/
def enter (a : Arrivals) (s : Span) : Arrivals where
  arena := (a.waitingFor s.spanId).foldl (fun arena child => arena.attach a.arena.size child)
    (a.arena.add s)
  known := a.known.insert s.spanId a.arena.size
  waiting := a.waiting.erase s.spanId
  root := a.root

/-- Takes a node to its caller, or lets it wait. -/
def place (a : Arrivals) (s : Span) (id : Nat) : Except InvalidTrace Arrivals :=
  if s.isRoot then
    if a.root.isSome then .error .multipleRoots else .ok { a with root := some id }
  else
    match a.known[s.parentSpanId]? with
    | some parent => .ok { a with arena := a.arena.attach parent id }
    | none => .ok {
        a with waiting := a.waiting.insert s.parentSpanId (a.waitingFor s.parentSpanId ++ [id]) }

def arrive (a : Arrivals) (s : Span) : Except InvalidTrace Arrivals :=
  if s.spanId = s.parentSpanId then .error (.selfParent s.spanId)
  else if a.known.contains s.spanId then .error (.duplicateSpanId s.spanId)
  else (a.enter s).place s a.arena.size

/-- How many nodes still wait. -/
def orphans (a : Arrivals) : Nat := a.waiting.fold (fun n _ ids => n + ids.length) 0

def ofSpans (spans : List Span) : Except InvalidTrace Arrivals := spans.foldlM arrive {}

end Arrivals

/-- Rebuilds a tree in one pass over its spans. -/
def CallTree.ofArrivals (spans : List Span) : Except InvalidTrace CallTree := do
  let a ← Arrivals.ofSpans spans
  match a.root with
  | none => throw .noRoot
  | some root =>
    if 0 < a.orphans then throw (.disconnected a.orphans)
    a.arena.finish root

/-! ### The arena -/

namespace Arena

/-- Attaching nodes one by one, each the youngest child when its turn comes. -/
theorem Ordered.foldl_attach {a : Arena} (h : a.Ordered) (parent : Nat) (ids : List Nat)
    (hparent : parent < a.size) (hchildless : ∀ c, a.parent c ≠ some parent)
    (hsorted : ids.Pairwise (· < ·)) (hids : ∀ id ∈ ids, id < a.size ∧ a.parent id = none) :
    let b := ids.foldl (fun b id => b.attach parent id) a
    b.Ordered ∧ b.spans = a.spans ∧
      ∀ c, b.parent c = if c ∈ ids then some parent else a.parent c := by
  induction ids using List.reverseRecOn with
  | nil => exact ⟨h, rfl, by simp⟩
  | append_singleton ids id ih =>
    obtain ⟨hids_sorted, -, hlast⟩ := List.pairwise_append.mp hsorted
    obtain ⟨hordered, hspans, hparents⟩ :=
      ih hids_sorted fun j hj => hids j (List.mem_append_left _ hj)
    obtain ⟨hlt, hfree⟩ := hids id (by simp)
    rw [List.foldl_append]
    generalize ids.foldl (fun b id => b.attach parent id) a = b at *
    have hsize : b.size = a.size := by rw [← length_spans, hspans, length_spans]
    have hnew : id ∉ ids := fun hmem => Nat.lt_irrefl _ (hlast id hmem id (by simp))
    refine ⟨hordered.attach (hsize ▸ hparent) (hsize ▸ hlt) ?_ fun c hc => ?_, ?_, fun c => ?_⟩
    · rw [hparents, if_neg hnew, hfree]
    · rw [hparents] at hc
      split at hc
      · next hmem => exact hlast c hmem id (by simp)
      · exact absurd hc (hchildless c)
    · exact (spans_attach ..).trans hspans
    · show (b.attach parent id).parent c = _
      rw [parent_attach _ (hsize ▸ hlt), hparents]
      by_cases hc : c = id <;> simp [hc]

/-- Links in order are told by the parents alone. -/
theorem Ordered.ext {a b : Arena} (ha : a.Ordered) (hb : b.Ordered) (hspans : a.spans = b.spans)
    (hparent : ∀ id, a.parent id = b.parent id) : a = b := by
  have hchildren : ∀ id, a.children id = b.children id := fun id =>
    (ha.sorted id).eq_of_mem_iff (hb.sorted id) fun c => by
      rw [ha.mem_children, hb.mem_children, hparent]
  have hsize : a.size = b.size := by rw [← length_spans, hspans, length_spans]
  have node_eq : ∀ (x : Arena) (id : Nat) (hid : id < x.nodes.size),
      x.nodes[id] = ⟨x.spans.getD id default, x.parent id, x.children id⟩ := by
    intro x id hid
    simp [spans, parent, children, hid]
  suffices a.nodes = b.nodes from congrArg Arena.mk this
  refine Array.ext hsize fun id h₁ h₂ => ?_
  simp only [node_eq a id h₁, node_eq b id h₂, hspans, hparent, hchildren]

end Arena

/-! ### What is there after some spans -/

namespace Arrivals
variable {a a' : Arrivals} {spans : List Span} {s : Span}

/-- The census of the spans that have come. -/
def census (a : Arrivals) : Census := ⟨a.known, a.root⟩

/-- The arena has the links that the census tells, and whoever names a caller that has not come
waits for it. -/
structure Of (a : Arrivals) (spans : List Span) : Prop where
  census : a.census.Of spans
  ordered : a.arena.Ordered
  spans_eq : a.arena.spans = spans
  parent : ∀ id, a.arena.parent id = spans[id]?.bind a.census.parent?
  waiting : ∀ caller, a.waitingFor caller
    = if caller ∈ spans.map Span.spanId then [] else naming spans caller

theorem of_empty : Of {} [] where
  census := ⟨by simp [Arrivals.census], by simp [Arrivals.census]⟩
  ordered := Arena.ordered_empty
  spans_eq := rfl
  parent _ := rfl
  waiting caller := by simp [waitingFor, naming]

theorem waitingFor_enter (a : Arrivals) (s : Span) (caller : String) :
    (a.enter s).waitingFor caller = if s.spanId = caller then [] else a.waitingFor caller := by
  simp [waitingFor, Arrivals.enter, Std.HashMap.getD_erase]

/-- The pass stops where the census does. -/
theorem map_census_arrive (a : Arrivals) (s : Span) :
    (a.arrive s).map census = a.census.note a.arena.size s := by
  rw [arrive, Census.note]
  split
  · rfl
  rw [Arrivals.census]
  split
  · rfl
  rw [place]
  cases s.isRoot with
  | true =>
    cases hroot : a.root with
    | none => simp [Arrivals.enter, Except.map, Arrivals.census, hroot]
    | some root => simp [Arrivals.enter, Except.map, hroot]
  | false =>
    simp only [Bool.false_eq_true, if_false, Bool.false_and]
    split <;> rfl

theorem parent?_insert (c : Census) (root : Option Nat) (caller : String) (id : Nat) (r : Span) :
    Census.parent? ⟨c.ids.insert caller id, root⟩ r
      = if r.names caller then some id else c.parent? r := by
  rw [Census.parent?, Census.parent?, Span.names]
  cases r.isRoot with
  | true => rfl
  | false =>
    rw [Std.HashMap.getElem?_insert]
    by_cases h : caller = r.parentSpanId
    · simp [h]
    · simp [h, Ne.symm h]

/-- What becomes of the newest node. -/
theorem place_eq_ok {id : Nat} (hok : a.place s id = .ok a') :
    s.isRoot = true ∧ a' = { a with root := some id } ∨
    s.isRoot = false ∧ (∃ parent, a.known[s.parentSpanId]? = some parent ∧
      a' = { a with arena := a.arena.attach parent id }) ∨
    s.isRoot = false ∧ a.known[s.parentSpanId]? = none ∧ a' = { a with
      waiting := a.waiting.insert s.parentSpanId (a.waitingFor s.parentSpanId ++ [id]) } := by
  rw [place] at hok
  cases hroot : s.isRoot with
  | true =>
    rw [hroot, if_pos rfl] at hok
    split at hok
    · cases hok
    · exact .inl ⟨rfl, (Except.ok.inj hok).symm⟩
  | false =>
    rw [hroot, if_neg Bool.false_ne_true] at hok
    split at hok
    · next parent hparent => exact .inr (.inl ⟨rfl, parent, hparent, (Except.ok.inj hok).symm⟩)
    · next hnone => exact .inr (.inr ⟨rfl, hnone, (Except.ok.inj hok).symm⟩)

namespace Of
variable (h : a.Of spans)
include h

theorem size_arena : a.arena.size = spans.length := by rw [← Arena.length_spans, h.spans_eq]

/-- No node is called from one that has not come. -/
theorem parent_lt {id parent : Nat} (hparent : a.arena.parent id = some parent) :
    parent < spans.length := by
  rw [h.parent] at hparent
  obtain ⟨r, -, hr⟩ := Option.bind_eq_some_iff.mp hparent
  obtain ⟨-, p, hp, -⟩ := h.census.parent?_eq_some_iff.mp hr
  exact (List.getElem?_eq_some_iff.mp hp).1

/-- Whoever waits has no parent. -/
theorem parent_eq_none {caller : String} (hnew : caller ∉ spans.map Span.spanId) {id : Nat}
    (hid : id ∈ naming spans caller) : a.arena.parent id = none := by
  obtain ⟨r, hr, hcall, hparent⟩ := mem_naming.mp hid
  refine Option.eq_none_iff_forall_ne_some.mpr fun p hp => hnew ?_
  rw [h.parent, hr, Option.bind_some, h.census.parent?_eq_some_iff] at hp
  obtain ⟨-, q, hq, hname⟩ := hp
  exact List.mem_map.mpr ⟨q, List.mem_of_getElem? hq, hname.trans hparent⟩

end Of

/-- The newest node has come, and its own caller is not looked for yet. -/
structure Entered (a : Arrivals) (spans : List Span) (s : Span) : Prop where
  ordered : a.arena.Ordered
  spans_eq : a.arena.spans = spans ++ [s]
  parent : ∀ id, a.arena.parent id = spans[id]?.bind a.census.parent?
  waiting : ∀ caller, a.waitingFor caller
    = if caller ∈ (spans ++ [s]).map Span.spanId then [] else naming spans caller

/-- Whoever waited for a span is attached to it when it comes. -/
theorem Of.entered (h : a.Of spans) (hnew : s.spanId ∉ spans.map Span.spanId) :
    Entered (a.enter s) spans s := by
  have hwaiting : a.waitingFor s.spanId = naming spans s.spanId := by rw [h.waiting, if_neg hnew]
  have hchildless : ∀ c, (a.arena.add s).parent c ≠ some spans.length := fun c hc =>
    Nat.lt_irrefl _ (h.parent_lt ((a.arena.parent_add s c).symm.trans hc))
  have hids : ∀ id ∈ naming spans s.spanId,
      id < (a.arena.add s).size ∧ (a.arena.add s).parent id = none := by
    intro id hid
    obtain ⟨r, hr, -⟩ := mem_naming.mp hid
    have := (List.getElem?_eq_some_iff.mp hr).1
    rw [Arena.size_add, h.size_arena, Arena.parent_add]
    exact ⟨by omega, h.parent_eq_none hnew hid⟩
  obtain ⟨hordered, hspans, hparent⟩ := (h.ordered.add s).foldl_attach spans.length
    (naming spans s.spanId) (by simp [h.size_arena]) hchildless List.pairwise_findIdxs hids
  have harena : (a.enter s).arena = (naming spans s.spanId).foldl
      (fun b id => b.attach spans.length id) (a.arena.add s) := by
    rw [Arrivals.enter, hwaiting, h.size_arena]
  refine ⟨harena ▸ hordered, ?_, fun id => ?_, fun caller => ?_⟩
  · rw [harena, hspans, Arena.spans_add, h.spans_eq]
  · rw [harena, hparent, Arena.parent_add, h.parent]
    cases hr : spans[id]? with
    | none => simp [mem_naming, hr]
    | some r =>
      have hmem : id ∈ naming spans s.spanId ↔ r.names s.spanId = true := by
        simp [mem_naming, hr, Span.names_eq_true]
      rw [Option.bind_some, Option.bind_some, Arrivals.census, Arrivals.enter,
        ← h.size_arena]
      exact (if_congr hmem rfl rfl).trans (parent?_insert a.census a.root s.spanId _ r).symm
  · rw [waitingFor_enter, h.waiting]
    by_cases hcaller : s.spanId = caller
    · simp [hcaller]
    · simp [hcaller, Ne.symm hcaller]

namespace Entered
variable (h : a.Entered spans s)
include h

theorem size_arena : a.arena.size = spans.length + 1 := by
  rw [← Arena.length_spans, h.spans_eq, List.length_append, List.length_singleton]

theorem free : a.arena.parent spans.length = none := by
  rw [h.parent, List.getElem?_eq_none (Nat.le_refl _)]
  rfl

/-- A root has nobody to wait for. -/
theorem top (hs : s.isRoot = true)
    (hcensus : Census.Of ⟨a.known, some spans.length⟩ (spans ++ [s])) :
    Of { a with root := some spans.length } (spans ++ [s]) where
  census := hcensus
  ordered := h.ordered
  spans_eq := h.spans_eq
  parent id := by
    rw [List.bind_getElem?_append_singleton]
    split
    · next hid => rw [hid, h.free, Census.parent?, if_pos hs]
    · exact h.parent id
  waiting caller := by
    rw [naming_append_of_eq_false (by simp [Span.names, hs])]
    exact h.waiting caller

/-- The caller came first. -/
theorem attach (hs : s.isRoot = false) (hcensus : a.census.Of (spans ++ [s])) {parent : Nat}
    (hknown : a.known[s.parentSpanId]? = some parent) :
    Of { a with arena := a.arena.attach parent spans.length } (spans ++ [s]) := by
  obtain ⟨r, hr, hname⟩ := (hcensus.ids s.parentSpanId parent).mp hknown
  have hsize := h.size_arena
  have hlt : parent < a.arena.size := by
    rw [hsize]
    simpa using (List.getElem?_eq_some_iff.mp hr).1
  refine ⟨hcensus, h.ordered.attach hlt (by omega) h.free fun c hc => ?_,
    (Arena.spans_attach ..).trans h.spans_eq, fun id => ?_, fun caller => ?_⟩
  · rw [h.parent] at hc
    exact List.lt_length_of_bind_getElem? hc
  · show (a.arena.attach parent spans.length).parent id = _
    rw [Arena.parent_attach _ (by omega), List.bind_getElem?_append_singleton]
    split
    · rw [Census.parent?, if_neg (by simp [hs])]
      exact hknown.symm
    · exact h.parent id
  · refine (h.waiting caller).trans (if_ctx_congr Iff.rfl (fun _ => rfl) fun hnone => ?_)
    refine (naming_append_of_eq_false (Bool.eq_false_iff.mpr fun hnames => hnone ?_)).symm
    exact List.mem_map.mpr
      ⟨r, List.mem_of_getElem? hr, hname.trans (Span.names_eq_true.mp hnames).2⟩

/-- The caller is still to come. -/
theorem wait (hs : s.isRoot = false) (hcensus : a.census.Of (spans ++ [s]))
    (hunknown : a.known[s.parentSpanId]? = none) :
    Of
      { a with
        waiting :=
          a.waiting.insert s.parentSpanId (a.waitingFor s.parentSpanId ++ [spans.length]) }
      (spans ++ [s]) where
  census := hcensus
  ordered := h.ordered
  spans_eq := h.spans_eq
  parent id := by
    rw [List.bind_getElem?_append_singleton]
    split
    · next hid =>
      rw [hid, h.free, Census.parent?, if_neg (by simp [hs])]
      exact hunknown.symm
    · exact h.parent id
  waiting caller := by
    have hmissing : s.parentSpanId ∉ (spans ++ [s]).map Span.spanId := by
      rw [← hcensus.contains_iff, Std.HashMap.contains_eq_isSome_getElem?]
      simp [Arrivals.census, hunknown]
    rw [waitingFor, Std.HashMap.getD_insert]
    by_cases hcaller : s.parentSpanId = caller
    · subst hcaller
      have hnames : s.names s.parentSpanId = true := Span.names_eq_true.mpr ⟨hs, rfl⟩
      rw [if_pos (by simp), h.waiting, if_neg hmissing, if_neg hmissing, naming_append_singleton,
        if_pos hnames]
    · rw [if_neg (by simpa using hcaller), naming_append_of_eq_false (by simp [Span.names, hcaller])]
      exact h.waiting caller

end Entered

/-- What is known of the spans so far is known with the next one. -/
theorem Of.arrive (h : a.Of spans) (hok : a.arrive s = .ok a') : a'.Of (spans ++ [s]) := by
  have hnote : a.census.note spans.length s = .ok a'.census := by
    rw [← h.size_arena, ← map_census_arrive, hok]
    rfl
  obtain ⟨hself, hnew, hroot, heq⟩ := (Census.note_eq_ok h.census).mp hnote
  have hcensus : a'.census.Of (spans ++ [s]) := heq ▸ h.census.insert hnew hroot
  have hplace : (a.enter s).place s spans.length = .ok a' := by
    have hunknown : ¬ a.known.contains s.spanId = true := fun hold =>
      hnew ((h.census.contains_iff s.spanId).mp hold)
    rwa [Arrivals.arrive, if_neg hself, if_neg hunknown, h.size_arena] at hok
  have hentered := h.entered hnew
  obtain ⟨hs, rfl⟩ | ⟨hs, ⟨parent, hknown, rfl⟩⟩ | ⟨hs, hunknown, rfl⟩ := place_eq_ok hplace
  · exact hentered.top hs hcensus
  · exact hentered.attach hs hcensus hknown
  · exact hentered.wait hs hcensus hunknown

/-! ### The whole pass -/

theorem ofSpans_append_singleton : Arrivals.ofSpans (spans ++ [s])
    = Arrivals.ofSpans spans >>= fun a => a.arrive s := by
  simp [Arrivals.ofSpans]

theorem of_ofSpans (hok : Arrivals.ofSpans spans = .ok a) : a.Of spans := by
  induction spans using List.reverseRecOn generalizing a with
  | nil =>
    obtain rfl := Except.ok.inj hok
    exact of_empty
  | append_singleton spans s ih =>
    rw [ofSpans_append_singleton] at hok
    obtain ⟨b, hb, hstep⟩ := Except.bind_eq_ok.mp hok
    exact (ih hb).arrive hstep

/-- The pass takes the census on its way. -/
theorem map_census_ofSpans (spans : List Span) :
    (Arrivals.ofSpans spans).map census = Census.ofSpans spans := by
  induction spans using List.reverseRecOn with
  | nil => rfl
  | append_singleton spans s ih =>
    rw [ofSpans_append_singleton, Census.ofSpans_append_singleton, ← ih]
    cases ha : Arrivals.ofSpans spans with
    | error e => rfl
    | ok a =>
      show (a.arrive s).map census = a.census.note spans.length s
      rw [map_census_arrive, (of_ofSpans ha).size_arena]

/-- The arena is the one that is linked afterwards. -/
theorem Of.arena_eq (h : a.Of spans) : a.arena = a.census.link spans := by
  obtain ⟨hordered, hspans, hparent⟩ := h.census.ordered_link
  exact h.ordered.ext hordered (h.spans_eq.trans hspans.symm) fun id => by rw [h.parent, hparent]

theorem Of.mem_waitingFor (h : a.Of spans) {caller : String} {id : Nat} :
    id ∈ a.waitingFor caller ↔ caller ∉ spans.map Span.spanId ∧ id ∈ naming spans caller := by
  rw [h.waiting]
  split
  · next hold => simp [hold]
  · next hnew => simp [hnew]

theorem mem_toList_waiting {caller : String} {ids : List Nat} :
    (caller, ids) ∈ a.waiting.toList ↔ a.waiting[caller]? = some ids :=
  Std.HashMap.mem_toList_iff_getElem?_eq_some

theorem waitingFor_of_mem {caller : String} {ids : List Nat}
    (hmem : (caller, ids) ∈ a.waiting.toList) : a.waitingFor caller = ids := by
  rw [waitingFor, Std.HashMap.getD_eq_getD_getElem?, mem_toList_waiting.mp hmem, Option.getD_some]

theorem mem_of_waitingFor {caller : String} {id : Nat} (hid : id ∈ a.waitingFor caller) :
    (caller, a.waitingFor caller) ∈ a.waiting.toList := by
  rw [mem_toList_waiting]
  rw [waitingFor, Std.HashMap.getD_eq_getD_getElem?] at hid ⊢
  cases hget : a.waiting[caller]? with
  | none => simp [hget] at hid
  | some ids => rw [Option.getD_some]

/-- Those who wait in the end are those whose caller is missing, each once. -/
theorem Of.perm_orphans (h : a.Of spans) :
    (a.waiting.toList.flatMap Prod.snd).Perm (spans.findIdxs a.census.isOrphan) := by
  have hids : ∀ e ∈ a.waiting.toList, ∀ id, id ∈ e.2 ↔
      e.1 ∉ spans.map Span.spanId ∧ id ∈ naming spans e.1 := fun e he id => by
    rw [← waitingFor_of_mem he, h.mem_waitingFor]
  have hnodup : (a.waiting.toList.flatMap Prod.snd).Nodup := by
    refine List.nodup_flatMap.mpr ⟨fun e he => ?_, ?_⟩
    · rw [← waitingFor_of_mem he, h.waiting]
      split
      · exact List.nodup_nil
      · exact List.nodup_findIdxs
    · refine Std.HashMap.distinct_keys_toList.imp_of_mem fun {e e'} he he' hne id hid hid' => ?_
      obtain ⟨r, hr, -, hname⟩ := mem_naming.mp ((hids e he id).mp hid).2
      obtain ⟨r', hr', -, hname'⟩ := mem_naming.mp ((hids e' he' id).mp hid').2
      obtain rfl := Option.some.inj (hr.symm.trans hr')
      exact beq_eq_false_iff_ne.mp hne (hname.symm.trans hname')
  refine (List.perm_ext_iff_of_nodup hnodup List.nodup_findIdxs).mpr fun id => ?_
  rw [List.mem_flatMap, List.mem_findIdxs_iff_exists_getElem_pos]
  constructor
  · rintro ⟨e, he, hid⟩
    obtain ⟨hmissing, hnaming⟩ := (hids e he id).mp hid
    obtain ⟨r, hr, hcall, hname⟩ := mem_naming.mp hnaming
    obtain ⟨hlt, rfl⟩ := List.getElem?_eq_some_iff.mp hr
    refine ⟨hlt, ?_⟩
    rw [Census.isOrphan, hcall, hname, Bool.not_false, Bool.true_and, Bool.not_eq_true']
    exact Bool.eq_false_iff.mpr (mt (h.census.contains_iff _).mp hmissing)
  · rintro ⟨hlt, horphan⟩
    rw [Census.isOrphan, Bool.and_eq_true, Bool.not_eq_true', Bool.not_eq_true'] at horphan
    have hmissing : spans[id].parentSpanId ∉ spans.map Span.spanId := fun hold =>
      Bool.false_ne_true (horphan.2.symm.trans ((h.census.contains_iff _).mpr hold))
    have hid : id ∈ a.waitingFor spans[id].parentSpanId := h.mem_waitingFor.mpr
      ⟨hmissing, mem_naming.mpr ⟨_, List.getElem?_eq_getElem hlt, horphan.1, rfl⟩⟩
    exact ⟨_, mem_of_waitingFor hid, hid⟩

theorem Of.orphans_eq (h : a.Of spans) : a.orphans = spans.countP a.census.isOrphan := by
  have hsum : ∀ (l : List (String × List Nat)) (n : Nat),
      l.foldl (fun n e => n + e.2.length) n = n + (l.flatMap Prod.snd).length := by
    intro l
    induction l with
    | nil => exact fun n => rfl
    | cons e l ih =>
      intro n
      rw [List.foldl_cons, ih, List.flatMap_cons, List.length_append, Nat.add_assoc]
  rw [orphans, Std.HashMap.fold_eq_foldl_toList, hsum, Nat.zero_add, h.perm_orphans.length_eq,
    List.length_findIdxs]

end Arrivals

/-- One pass is enough. -/
theorem CallTree.ofArrivals_eq_ofSpans (spans : List Span) :
    CallTree.ofArrivals spans = CallTree.ofSpans spans := by
  have hcensus := Arrivals.map_census_ofSpans spans
  rw [ofArrivals, ofSpans, ← hcensus]
  cases ha : Arrivals.ofSpans spans with
  | error e => rfl
  | ok a =>
    have hof := Arrivals.of_ofSpans ha
    show (match a.root with | none => _ | some root => _) = _
    rw [hof.orphans_eq, hof.arena_eq]
    rfl

end CallTrace
