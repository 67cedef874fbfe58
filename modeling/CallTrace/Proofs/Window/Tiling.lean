import CallTrace.Window.Assembler

/-! # Windows tile the time line

A timestamp lies in the window with the number `WindowConfig.index`, its quotient by the window
size.  Start and stop of that window are the multiples of the size around the timestamp, clamped
to the range of timestamps (`start_windowOf`, `stop_windowOf`).

Clamping loses nothing: windows with one start are the same window (`windowOf_eq_of_start_eq`), a
window is found again from its start (`windowOf_start`), and the closing times of windows stand in
the order of their starts (`closingTime_le_closingTime`), so the closed windows come first. -/

namespace CallTrace

namespace WindowConfig

/-- What a configuration that passes its check promises. -/
structure Valid (c : WindowConfig) : Prop where
  size_pos : 0 < c.size.toInt
  grace_nonneg : 0 ≤ c.grace.toInt
  limit_pos : 0 < c.maxRecordSize

theorem check_eq_ok_iff (c : WindowConfig) : c.check = .ok () ↔ c.Valid := by
  have size_iff : c.size ≤ 0 ↔ c.size.toInt ≤ 0 := Int64.le_iff_toInt_le
  have grace_iff : c.grace < 0 ↔ c.grace.toInt < 0 := Int64.lt_iff_toInt_lt
  unfold check
  simp only [size_iff, grace_iff]
  constructor
  · intro h
    split at h
    · simp at h
    · split at h
      · simp at h
      · split at h
        · simp at h
        · exact ⟨by omega, by omega, by omega⟩
  · intro ⟨hs, hg, hl⟩
    rw [if_neg (by omega), if_neg (by omega), if_neg (by omega)]

/-! ### The window of a timestamp -/

/-- The number of the window that a time falls into. -/
def index (c : WindowConfig) (time : Timestamp) : Int := time.toInt / c.size.toInt

theorem start_windowOf (c : WindowConfig) (t : Timestamp) :
    (c.windowOf t).start = Timestamp.clamp (c.size.toInt * c.index t) := by
  have e := Int.mul_ediv_add_emod t.toInt c.size.toInt
  simp only [windowOf, index]
  congr 1
  omega

theorem stop_windowOf (c : WindowConfig) (t : Timestamp) :
    (c.windowOf t).stop = Timestamp.clamp (c.size.toInt * c.index t + c.size.toInt) := by
  have e := Int.mul_ediv_add_emod t.toInt c.size.toInt
  simp only [windowOf, index]
  congr 1
  omega

theorem windowOf_eq_of_index_eq {c : WindowConfig} {t u : Timestamp}
    (h : c.index t = c.index u) : c.windowOf t = c.windowOf u := by
  have hstart : (c.windowOf t).start = (c.windowOf u).start := by
    rw [start_windowOf, start_windowOf, h]
  have hstop : (c.windowOf t).stop = (c.windowOf u).stop := by
    rw [stop_windowOf, stop_windowOf, h]
  cases hw : c.windowOf t
  cases hv : c.windowOf u
  simp_all

section
variable {c : WindowConfig} (hc : c.Valid)
include hc

theorem size_mul_index_le (t : Timestamp) : c.size.toInt * c.index t ≤ t.toInt :=
  Int.mul_ediv_self_le (by have := hc.size_pos; omega)

theorem lt_size_mul_index_add (t : Timestamp) :
    t.toInt < c.size.toInt * c.index t + c.size.toInt := Int.lt_mul_ediv_self_add hc.size_pos

theorem start_le (t : Timestamp) : (c.windowOf t).start ≤ t := by
  have := size_mul_index_le hc t
  have := t.minValue_le_toInt
  rw [Int64.le_iff_toInt_le, start_windowOf, Timestamp.toInt_clamp_eq]
  omega

theorem start_lt_start {t u : Timestamp} (h : c.index t < c.index u) :
    (c.windowOf t).start < (c.windowOf u).start := by
  have step : c.size.toInt * c.index t + c.size.toInt ≤ c.size.toInt * c.index u := by
    have := Int.mul_le_mul_of_nonneg_left (Int.add_one_le_iff.mpr h) (Int.le_of_lt hc.size_pos)
    rwa [Int.mul_add, Int.mul_one] at this
  have := lt_size_mul_index_add hc t
  have := size_mul_index_le hc t
  have := size_mul_index_le hc u
  have := t.minValue_le_toInt
  have := u.toInt_le
  rw [Int64.lt_iff_toInt_lt, start_windowOf, start_windowOf, Timestamp.toInt_clamp_eq,
    Timestamp.toInt_clamp_eq]
  omega

theorem index_le_of_start_le {t u : Timestamp}
    (h : (c.windowOf t).start ≤ (c.windowOf u).start) : c.index t ≤ c.index u := by
  rcases Int.lt_or_le (c.index u) (c.index t) with hlt | hle
  · exact absurd (start_lt_start hc hlt) (Int64.not_lt.mpr h)
  · exact hle

theorem windowOf_eq_of_start_eq {t u : Timestamp}
    (h : (c.windowOf t).start = (c.windowOf u).start) : c.windowOf t = c.windowOf u := by
  apply windowOf_eq_of_index_eq
  exact Int.le_antisymm (index_le_of_start_le hc (h ▸ Int64.le_rfl))
    (index_le_of_start_le hc (h ▸ Int64.le_rfl))

/-- A window is found again from its start, even if that was clamped. -/
theorem windowOf_start (t : Timestamp) : c.windowOf (c.windowOf t).start = c.windowOf t := by
  apply windowOf_eq_of_index_eq
  have hle := size_mul_index_le hc t
  have hlt := lt_size_mul_index_add hc t
  have hmin := t.minValue_le_toInt
  have hmax := t.toInt_le
  have hs := hc.size_pos
  have e : (c.windowOf t).start.toInt
      = max Int64.minValue.toInt (min (c.size.toInt * c.index t) Int64.maxValue.toInt) := by
    rw [start_windowOf, Timestamp.toInt_clamp_eq]
  apply Int.le_antisymm
  · exact Int.lt_add_one_iff.mp (Int.ediv_lt_of_lt_mul hs (by
      rw [Int.mul_comm, Int.mul_add, Int.mul_one]
      omega))
  · exact Int.le_ediv_of_mul_le hs (by
      rw [Int.mul_comm]
      omega)

/-! ### Closing -/

/-- No window is emitted before it has ended. -/
theorem stop_le_closingTime (w : Window) : w.stop ≤ c.closingTime w := by
  have := hc.grace_nonneg
  have := w.stop.minValue_le_toInt
  have := w.stop.toInt_le
  rw [Int64.le_iff_toInt_le, closingTime, Timestamp.toInt_clamp_eq]
  omega

theorem le_closingTime (t : Timestamp) : t ≤ c.closingTime (c.windowOf t) := by
  have := lt_size_mul_index_add hc t
  have := hc.grace_nonneg
  have := t.minValue_le_toInt
  have := t.toInt_le
  rw [Int64.le_iff_toInt_le, closingTime, stop_windowOf, Timestamp.toInt_clamp_eq,
    Timestamp.toInt_clamp_eq]
  omega

theorem minValue_lt_closingTime (t : Timestamp) :
    Int64.minValue < c.closingTime (c.windowOf t) := by
  have := lt_size_mul_index_add hc t
  have := hc.grace_nonneg
  have := t.minValue_le_toInt
  have : Int64.minValue.toInt < Int64.maxValue.toInt := by decide
  rw [Int64.lt_iff_toInt_lt, closingTime, stop_windowOf, Timestamp.toInt_clamp_eq,
    Timestamp.toInt_clamp_eq]
  omega

theorem closingTime_le_closingTime {t u : Timestamp}
    (h : (c.windowOf t).start ≤ (c.windowOf u).start) :
    c.closingTime (c.windowOf t) ≤ c.closingTime (c.windowOf u) := by
  have step : c.size.toInt * c.index t ≤ c.size.toInt * c.index u :=
    Int.mul_le_mul_of_nonneg_left (index_le_of_start_le hc h) (Int.le_of_lt hc.size_pos)
  apply Timestamp.clamp_le_clamp
  have hstop : (c.windowOf t).stop.toInt ≤ (c.windowOf u).stop.toInt := by
    rw [stop_windowOf, stop_windowOf, Timestamp.toInt_clamp_eq, Timestamp.toInt_clamp_eq]
    omega
  omega

end
end WindowConfig
end CallTrace
