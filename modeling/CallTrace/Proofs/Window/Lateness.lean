import CallTrace.Proofs.Window.Conservation
import CallTrace.Proofs.Window.Partition

/-! # Spans of a row that come too late

Each span that is accepted moves the time of an assembler on, so in a row of spans one may be late
because of another that stands before it.  A late span would not have moved the time on, and so
nothing but the starts in the row decides which are late (`WindowConfig.overtaken`,
`Assembler.lateSpans_map_push`).

A property that the late spans of a row are to have is one of the spans that were late before the row,
and of those whose windows the start of an earlier one closes (`WindowConfig.forall_mem_overtaken`). -/

namespace CallTrace

namespace WindowConfig
variable {c : WindowConfig} {known : Timestamp} {spans : List Span}

/-- Whether the window of a span is closed at a time. -/
def closes (c : WindowConfig) (time : Timestamp) (x : Span) : Bool :=
  c.closingTime (c.windowOf x.startTime) ≤ time

/-- The spans of a row whose windows are closed when it is their turn.  The time is `known` at first,
and every span moves it on. -/
def overtaken (c : WindowConfig) (known : Timestamp) : List Span → List Span
  | [] => []
  | x :: spans => [x].filter (c.closes known) ++ c.overtaken (max known x.startTime) spans

theorem closes_max (c : WindowConfig) (t u : Timestamp) (x : Span) :
    c.closes (max t u) x = true ↔ c.closes t x = true ∨ c.closes u x = true := by
  simp only [closes, decide_eq_true_eq, Timestamp.max_def]
  grind

/-- A time has closed the same windows that a watermark has, and none if it stands for no watermark. -/
theorem closes_iff_phase (hc : c.Valid) (m : Option Timestamp) (x : Span) :
    c.closes (m.getD Int64.minValue) x = true ↔ c.phase m (c.windowOf x.startTime) = .closed := by
  rw [closes, decide_eq_true_eq]
  exact (Assembler.phase_eq_closed_iff (a := { config := c, watermark := m }) hc x.startTime).symm

theorem forall_mem_overtaken {P : Span → Prop} : (∀ x ∈ c.overtaken known spans, P x) ↔
    (∀ x ∈ spans, c.closes known x = true → P x) ∧
      spans.Pairwise fun x y => c.closes x.startTime y = true → P y := by
  induction spans generalizing known with
  | nil => simp [overtaken]
  | cons x spans ih =>
    simp only [overtaken, List.forall_mem_append, ih, closes_max, or_imp, List.pairwise_cons,
      List.forall_mem_cons, forall_and, List.mem_filter, List.mem_singleton, and_imp, forall_eq]
    tauto

theorem overtaken_sublist : (c.overtaken known spans).Sublist spans := by
  induction spans generalizing known with
  | nil => exact List.Sublist.slnil
  | cons x spans ih => exact List.filter_sublist.append ih

/-- What was late before the row is late in it. -/
theorem filter_sublist_overtaken :
    (spans.filter (c.closes known)).Sublist (c.overtaken known spans) := by
  induction spans generalizing known with
  | nil => exact List.Sublist.slnil
  | cons x spans ih =>
    have hmono : (spans.filter (c.closes known)).Sublist
        (spans.filter (c.closes (max known x.startTime))) :=
      List.monotone_filter_right spans fun y hy => (c.closes_max ..).mpr (.inl hy)
    rw [← List.singleton_append, List.filter_append]
    exact (List.Sublist.refl _).append (hmono.trans ih)

/-- If no span of a row is late because of an earlier one, those are late that were before. -/
theorem overtaken_eq_filter
    (h : spans.Pairwise fun x y => c.closes x.startTime y = true → c.closes known y = true) :
    c.overtaken known spans = spans.filter (c.closes known) := by
  have hearlier : ∀ x ∈ c.overtaken known spans, c.closes known x = true :=
    forall_mem_overtaken.mpr ⟨fun _ _ hx => hx, h⟩
  refine List.Sublist.antisymm ?_ filter_sublist_overtaken
  rw [← List.filter_eq_self.mpr hearlier]
  exact overtaken_sublist.filter _

end WindowConfig

namespace Assembler
variable {a : Assembler}

theorem late_eq_closes (hc : a.config.Valid) (x : Span) : a.late x = a.config.closes a.time x :=
  decide_eq_decide.mpr (phase_eq_closed_iff hc x.startTime)

theorem lateSpans_append (a : Assembler) (ops ops' : List Operation) :
    a.lateSpans (ops ++ ops') = a.lateSpans ops ++ (a.run ops).1.lateSpans ops' := by
  induction ops generalizing a with
  | nil => rfl
  | cons o ops ih => rw [List.cons_append, lateSpans, lateSpans, run, ih, List.append_assoc]

theorem lateSpans_map_push (h : a.Sound) (hs : a.Settled) (spans : List Span) :
    a.lateSpans (spans.map .push) = a.config.overtaken a.time spans := by
  induction spans generalizing a with
  | nil => rfl
  | cons x spans ih =>
    have htime : (a.perform (.push x)).1.time = max a.time x.startTime :=
      time_perform_operation h hs (.span x)
    have hlate : a.late = a.config.closes a.time := funext (late_eq_closes h.valid)
    rw [List.map_cons, lateSpans, WindowConfig.overtaken, ih (h.perform hs _) (hs.perform h _),
      perform_config h hs, htime, hlate]
    rfl

end Assembler
end CallTrace
