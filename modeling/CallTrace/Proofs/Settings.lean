import CallTrace.Pipeline.Basic
import CallTrace.Proofs.Window.Run

/-! # Settings that pass their check

`Settings.check` asks for valid windows, a depth that is not negative, at least one partition, an
interval and the name of a level (`Settings.check_eq_ok_iff`).  Nothing else can go wrong at the
start of a pipeline: settings that pass start as `Pipeline.initial` (`Pipeline.start_eq`). -/

namespace CallTrace

theorem Settings.check_eq_ok_iff {s : Settings} :
    s.check = .ok () ↔ s.windows.Valid ∧ 0 ≤ s.reductionDepth ∧ 0 < s.partitions ∧
      0 < s.statusInterval ∧ (LogLevel.ofName? s.logLevel).isSome := by
  rw [← WindowConfig.check_eq_ok_iff]
  unfold check
  cases s.windows.check with
  | error e => simp [bind, Except.bind]
  | ok u =>
    by_cases hdepth : s.reductionDepth < 0
    · simp [hdepth, Int64.not_le.mpr hdepth, bind, Except.bind, throw, throwThe,
        MonadExceptOf.throw]
    have hnonneg : 0 ≤ s.reductionDepth := Int64.not_lt.mp hdepth
    by_cases hpartitions : s.partitions = 0
    · simp [hdepth, hpartitions, bind, Except.bind, throw, throwThe, MonadExceptOf.throw]
    by_cases hinterval : s.statusInterval = 0
    · simp [hdepth, hpartitions, hinterval, bind, Except.bind, throw, throwThe,
        MonadExceptOf.throw]
    cases hlevel : LogLevel.ofName? s.logLevel with
    | none =>
      simp [hdepth, hpartitions, hinterval, bind, Except.bind, throw, throwThe,
        MonadExceptOf.throw]
    | some level =>
      simp [hdepth, hnonneg, hpartitions, hinterval, bind, Except.bind, pure, Except.pure]
      omega

namespace Pipeline
variable {σ : Type}

/-- The pipeline of settings that pass their check. -/
def initial (settings : Settings) (store : σ) : Pipeline σ where
  depthLimit := settings.reductionDepth.toInt.toNat
  digest := settings.digest
  discard := settings.discard
  workers := (Array.range settings.partitions).map fun i =>
    { partition := i, assembler := { config := settings.windows } }
  shared := {
    store := store
    log := ⟨.debug,
        "Pipeline service started with " ++ toString settings.partitions ++ " partitions"⟩
      :: (List.range settings.partitions).map fun i : Nat =>
        ⟨.debug, "Partition worker " ++ toString i ++ " started"⟩ }

theorem start_eq {settings : Settings} (h : settings.check = .ok ()) (store : σ) :
    start settings store = .ok (initial settings store) := by
  obtain ⟨hwindows, hdepth, -⟩ := Settings.check_eq_ok_iff.mp h
  have hlimit : depthLimit? settings.reductionDepth = .ok settings.reductionDepth.toInt.toNat := by
    rw [depthLimit?, if_neg (Int64.not_lt.mpr hdepth)]
  unfold start
  rw [h, hlimit, Assembler.new?_eq_ok_iff.mpr ⟨hwindows, rfl⟩]
  rfl

end Pipeline
end CallTrace
