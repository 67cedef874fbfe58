import CallTrace.Proofs.Tree.Links
import CallTrace.Proofs.Tree.Path

/-! # Trees within trees

A tree is embedded in another if its nodes stand for different nodes of the other with the same
spans, the root for the root, and parents for parents (`CallTree.Embeds`).  Then levels, paths and
hash paths are the same (`Embeds.level`, `Embeds.path`, `Embeds.hashPath`).  A tree and what is left
of it are related in this way, and so are the trees of two lists of spans one of which is part of
the other.

What is not the same is the order of siblings.  For a regular tree it is the order in which its
nodes are numbered (`Embeds.map_children`); together with the embedding it fixes the breadth-first
order (`Embeds.walk`). -/

namespace CallTrace.CallTree

/-- Every node `id` of `u` stands for the node `f id` of `t`. -/
structure Embeds (f : Nat → Nat) (u t : CallTree) : Prop where
  lt : ∀ id < u.size, f id < t.size
  inj : ∀ i < u.size, ∀ j < u.size, f i = f j → i = j
  root : f u.root = t.root
  parent : ∀ id < u.size, t.parent (f id) = (u.parent id).map f
  span : ∀ id < u.size, u.span id = t.span (f id)

namespace Embeds
variable {t u v : CallTree} {f g : Nat → Nat} {id a x : Nat}

theorem trans (h : Embeds f u t) (h' : Embeds g v u) : Embeds (f ∘ g) v t where
  lt id hid := h.lt _ (h'.lt id hid)
  inj i hi j hj heq := h'.inj i hi j hj (h.inj _ (h'.lt i hi) _ (h'.lt j hj) heq)
  root := by rw [Function.comp, h'.root, h.root]
  parent id hid := by rw [Function.comp, h.parent _ (h'.lt id hid), h'.parent id hid, Option.map_map]
  span id hid := (h'.span id hid).trans (h.span _ (h'.lt id hid))

section
variable (h : Embeds f u t) (hu : u.Rooted) (ht : t.Rooted)
include h hu ht

theorem level (hid : id < u.size) : t.level (f id) = u.level id := by
  induction id, hid using hu.induction with
  | root => rw [h.root, ht.level_root, hu.level_root]
  | call child parent hparent ih =>
    have hlink := h.parent child (Rooted.lt_size_of_parent hparent)
    rw [hparent] at hlink
    rw [ht.level_of_parent hlink, hu.level_of_parent hparent, ih]

theorem path (hid : id < u.size) : t.path (f id) = (u.path id).map f := by
  induction id, hid using hu.induction with
  | root => rw [h.root, ht.path_root, hu.path_root, List.map_singleton, h.root]
  | call child parent hparent ih =>
    have hlink := h.parent child (Rooted.lt_size_of_parent hparent)
    rw [hparent] at hlink
    rw [ht.path_of_parent hlink, hu.path_of_parent hparent, ih, List.map_cons]

theorem hashPath (hid : id < u.size) : t.hashPath (f id) = u.hashPath id := by
  rw [CallTree.hashPath, h.path hu ht hid, List.map_map]
  refine List.map_congr_left fun j hj => ?_
  rw [Function.comp, h.span j (hu.lt_size_of_mem_path hid hj)]

theorem mem_path_iff (hx : x < u.size) (ha : a < u.size) : f a ∈ t.path (f x) ↔ a ∈ u.path x := by
  rw [h.path hu ht hx, List.mem_map]
  constructor
  · rintro ⟨b, hb, heq⟩
    rwa [← h.inj b (hu.lt_size_of_mem_path hx hb) a ha heq]
  · exact fun hmem => ⟨a, hmem, rfl⟩

end

/-- Siblings stand in the order of their numbers. -/
theorem map_children (h : Embeds f u t) (hu : u.Regular) (hid : id < u.size) :
    (u.children id).map f
      = ((List.range u.size).map f).filter fun j => t.parent j = some (f id) := by
  rw [hu.children_eq, List.filter_map]
  congr 1
  refine List.filter_congr fun c hc => decide_eq_decide.mpr ?_
  rw [h.parent c (List.mem_range.mp hc)]
  constructor
  · exact fun hparent => by rw [hparent, Option.map_some]
  · intro hparent
    obtain ⟨p, hp, heq⟩ := Option.map_eq_some_iff.mp hparent
    rw [hp, h.inj p (hu.parent_lt hp) id hid heq]

theorem walk (h : Embeds f u t) (hu : u.Rooted) {next : Nat → List Nat}
    (hnext : ∀ id < u.size, (u.children id).map f = next (f id)) :
    Walk next [t.root] (u.bfs.map f) := by
  rw [← h.root]
  exact hu.walk.map fun id hid => hnext id (hu.mem_bfs_iff.mp hid)

/-- Where siblings stand in the same order, so do all nodes. -/
theorem map_bfs (h : Embeds f u t) (hu : u.Rooted) (ht : t.Rooted)
    (hchildren : ∀ id < u.size, (u.children id).map f = t.children (f id)) :
    u.bfs.map f = t.bfs := (h.walk hu hchildren).unique ht.walk

theorem spans_eq (h : Embeds f u t) (hu : u.Rooted) : u.spans = (u.bfs.map f).map t.span := by
  rw [spans, List.map_map]
  exact List.map_congr_left fun id hid => h.span id (hu.mem_bfs_iff.mp hid)

theorem spans_thaw (h : Embeds f u t) : u.thaw.spans = ((List.range u.size).map f).map t.span := by
  rw [CallTree.spans_thaw, List.map_map]
  exact List.map_congr_left fun id hid => h.span id (List.mem_range.mp hid)

end Embeds

/-- What stands for the same nodes in the same order of numbers is one tree. -/
theorem Embeds.eq_of_range {t u v : CallTree} {f g : Nat → Nat} (h : Embeds f u t)
    (h' : Embeds g v t) (hu : u.Regular) (hv : v.Regular)
    (hrange : (List.range u.size).map f = (List.range v.size).map g) : u = v := by
  have hsize : u.size = v.size := by simpa using congrArg List.length hrange
  have hsame : ∀ id < u.size, f id = g id := by
    intro id hid
    have hget := congrArg (·[id]?) hrange
    simpa [hid, hsize ▸ hid] using hget
  refine hu.ext hv hsize ?_ (fun id hid => ?_) fun id hid => ?_
  · refine h.inj _ hu.root_lt _ (hsize ▸ hv.root_lt) ?_
    rw [hsame v.root (hsize ▸ hv.root_lt), h.root, h'.root]
  · rw [h.span id hid, hsame id hid, h'.span id (hsize ▸ hid)]
  · have hlinks : (u.parent id).map f = (v.parent id).map g := by
      rw [← h.parent id hid, hsame id hid, h'.parent id (hsize ▸ hid)]
    cases hup : u.parent id with
    | none =>
      rw [hup, Option.map_none, eq_comm, Option.map_eq_none_iff] at hlinks
      exact hlinks.symm
    | some p =>
      rw [hup, Option.map_some] at hlinks
      obtain ⟨q, hq, heq⟩ := Option.map_eq_some_iff.mp hlinks.symm
      have hq_lt := hsize ▸ hv.parent_lt hq
      rw [hq, h.inj p (hu.parent_lt hup) q hq_lt ((hsame q hq_lt).trans heq).symm]

/-! ### Siblings on the walk -/

/-- The walk meets the children of a node in their order. -/
theorem Rooted.filter_bfs {t : CallTree} (h : t.Rooted) {id : Nat} (hid : id < t.size) :
    t.bfs.filter (fun c => t.parent c = some id) = t.children id := by
  have hfilter : ∀ p, (t.children p).filter (fun c => t.parent c = some id)
      = if id = p then t.children id else [] := by
    intro p
    split
    · next heq =>
      subst heq
      exact List.filter_eq_self.mpr fun c hc => decide_eq_true (h.mem_children.mp hc)
    · next hne =>
      refine List.filter_eq_nil_iff.mpr fun c hc hparent => hne ?_
      exact Option.some.inj ((of_decide_eq_true hparent).symm.trans (h.mem_children.mp hc))
  conv_lhs => rw [h.bfs_eq]
  rw [List.filter_cons_of_neg (by simp [h.parent_root]), List.filter_flatMap,
    List.flatMap_congr fun p _ => hfilter p]
  exact List.flatMap_ite_eq h.nodup_bfs (h.mem_bfs_iff.mpr hid) _

end CallTrace.CallTree
