import CallTrace.Proofs.Text.Utf8
import CallTrace.Proofs.Window.Run

/-! # The order of emitted traces

Traces are ranked by the start of their window and by the bytes of their key (`Trace.rank`).  What
closing windows emits stands in strictly rising rank, because the slots do, and whatever is emitted
later comes from windows that were still open (`Assembler.mem_run_traces`).  So over a whole run
the ranks rise strictly (`Assembler.Sound.pairwise_rank_run`): no window of a key is emitted twice, not
even if its slots were discarded, and no window before an earlier one. -/

namespace CallTrace

/-- The start of the window of a trace, and the bytes of its key. -/
def Trace.rank (c : WindowConfig) (t : Trace) : Timestamp × List UInt8 :=
  ((c.windowOf t.startTime).start, Text.bytes t.windowKey)

/-- The order by window, and within one window by key. -/
def Trace.RankLt : Timestamp × List UInt8 → Timestamp × List UInt8 → Prop :=
  Prod.Lex (· < ·) (· < ·)

namespace Slot
variable {c : WindowConfig} {s t : Slot}

theorem Sound.rank_trace (h : s.Sound c) (hopen : s.overflowed = false) :
    s.trace.rank c = (s.start, Text.bytes s.key) := by
  rw [Trace.rank, h.windowOf_startTime hopen, h.start_eq, h.windowKey_trace hopen]

/-- What slots emit stands in the order of the slots. -/
theorem Before.rankLt (hst : s.Before t) (hs : s.Sound c) (ht : t.Sound c) :
    ∀ x ∈ (s.emit c).traces, ∀ y ∈ (t.emit c).traces, Trace.RankLt (x.rank c) (y.rank c) := by
  intro x hx y hy
  obtain ⟨hsopen, -, rfl⟩ := mem_emit.mp hx
  obtain ⟨htopen, -, rfl⟩ := mem_emit.mp hy
  rw [hs.rank_trace hsopen, ht.rank_trace htopen]
  rcases hst with h | ⟨h, hkey⟩
  · exact Prod.Lex.left _ _ h
  · rw [h]
    exact Prod.Lex.right _ (Text.bytes_lt_bytes hkey)

/-- A slot emits at most one trace. -/
theorem pairwise_emit (s : Slot) (r : Trace → Trace → Prop) : (s.emit c).traces.Pairwise r := by
  unfold emit
  split
  · exact List.Pairwise.nil
  · split
    · exact List.pairwise_singleton r _
    · exact List.Pairwise.nil

end Slot

namespace Assembler
variable {a : Assembler}

theorem Sound.pairwise_rank_close (h : a.Sound) :
    (a.close.2.traces.map (Trace.rank a.config)).Pairwise Trace.RankLt := by
  rw [close_traces h, List.pairwise_map, List.pairwise_flatMap]
  constructor
  · exact fun s _ => s.pairwise_emit _
  · refine (h.ordered.filter _).imp_of_mem fun {s t} hs ht hst => ?_
    exact hst.rankLt (h.slots s (List.mem_filter.mp hs).1) (h.slots t (List.mem_filter.mp ht).1)

/-- Whatever has closed by the time of an assembler ranks below whatever closes later. -/
theorem rankLt_of_closingTime (hc : a.config.Valid) {t u : Trace}
    (ht : a.config.closingTime (a.config.windowOf t.startTime) ≤ a.time)
    (hu : a.time < a.config.closingTime (a.config.windowOf u.startTime)) :
    Trace.RankLt (t.rank a.config) (u.rank a.config) := by
  apply Prod.Lex.left
  by_contra hle
  have := WindowConfig.closingTime_le_closingTime hc (Int64.not_lt.mp hle)
  grind

/-- Over every run the ranks of the emitted traces rise strictly. -/
theorem Sound.pairwise_rank_run (h : a.Sound) (hs : a.Settled) (ops : List Operation) :
    ((a.run ops).2.traces.map (Trace.rank a.config)).Pairwise Trace.RankLt := by
  induction ops generalizing a with
  | nil => exact List.Pairwise.nil
  | cons o ops ih =>
    have now : ((a.perform o).2.traces.map (Trace.rank a.config)).Pairwise Trace.RankLt := by
      have := (h.prepare o).pairwise_rank_close
      rwa [prepare_config, ← (perform_eq_close h hs o).2] at this
    have later := ih (h.perform hs o) (hs.perform h o)
    rw [perform_config h hs] at later
    rw [Assembler.run, Emission.traces_append, List.map_append, List.pairwise_append]
    refine ⟨now, later, ?_⟩
    simp only [List.mem_map]
    rintro _ ⟨t, ht, rfl⟩ _ ⟨u, hu, rfl⟩
    have closed := (mem_perform_traces h hs ht).2.2
    have opened := (mem_run_traces (h.perform hs o) (hs.perform h o) hu).2
    rw [← perform_config h hs o] at closed ⊢
    exact rankLt_of_closingTime (h.perform hs o).valid closed opened

/-- No window of a key is emitted twice or reopened, and older windows are emitted before newer
ones, whatever a new assembler is told. -/
theorem emitted_ranks_increase {c : WindowConfig} (h : new? c = .ok a) (ops : List Operation) :
    ((a.run ops).2.traces.map (Trace.rank c)).Pairwise Trace.RankLt := by
  obtain ⟨hc, rfl⟩ := new?_eq_ok_iff.mp h
  exact (sound_new hc).pairwise_rank_run (settled_new c) ops

/-- A late span, a clamped window and a discard in between; three traces are emitted. -/
theorem emitted_ranks_increase_after_discard :
    let ops : List Operation := [.push { traceId := "b", startTime := 200 },
      .push { traceId := "a", startTime := -5 }, .push { traceId := "a", startTime := 100 }, .discard,
      .push { traceId := "b", startTime := 300 }, .push { traceId := "a", startTime := 400 },
      .advance 12000, .push { traceId := "a", startTime := 500 },
      .push { traceId := "c", startTime := Int64.maxValue }, .advance Int64.maxValue]
    let traces := (run { config := {} } ops).2.traces
    traces.map Trace.traceId = ["a", "b", "c"] ∧
      (traces.map (Trace.rank {})).Pairwise Trace.RankLt :=
  ⟨by decide +kernel, emitted_ranks_increase (c := {}) (a := { config := {} }) (by decide) _⟩

end Assembler
end CallTrace
