import CallTrace.Proofs.Window.Watermark

/-! # Windows in 64 bits

A window is found with numbers of 64 bits: a remainder, which is put right if it is negative, and
what is left of the window size.  Taken step by step (`WindowConfig.checkedWindow?`) nothing
overflows, since all of these numbers lie between the negative window size and the window size
(`WindowConfig.checkedWindow?_eq`).  Only the start and the stop may leave the range of timestamps,
and these are clamped.

So the windows of all timestamps tile their range, whatever the window size
(`WindowConfig.windows_tile`).  Neighbours meet, because a stop and the start of the next window are
the same multiple of the window size before they are clamped. -/

namespace CallTrace

/-! ### Steps that may overflow -/

namespace Timestamp

/-- An integer in 64 bits; nothing if it overflows. -/
def fit? (i : Int) : Option Int64 :=
  if Int64.minValue.toInt ≤ i ∧ i ≤ Int64.maxValue.toInt then some (clamp i) else none

/-- What is left by a division that rounds toward zero.  A quotient that overflows leaves nothing. -/
def checkedRem? (t size : Int64) : Option Int64 := do
  let _ ← if size = 0 then none else fit? (t.toInt.tdiv size.toInt)
  fit? (t.toInt.tmod size.toInt)

/-- What is left by a division that rounds down. -/
def checkedRemFloor? (t size : Int64) : Option Int64 := do
  let rem ← checkedRem? t size
  if rem < 0 then fit? (rem.toInt + size.toInt) else return rem

theorem exists_fit? {i : Int} (lo : Int64.minValue.toInt ≤ i) (hi : i ≤ Int64.maxValue.toInt) :
    ∃ n : Int64, fit? i = some n ∧ n.toInt = i :=
  ⟨clamp i, if_pos ⟨lo, hi⟩, toInt_clamp lo hi⟩

theorem tdiv_between (t : Int) {size : Int} (h : 1 ≤ size) :
    min t 0 ≤ t.tdiv size ∧ t.tdiv size ≤ max t 0 := by
  rcases Int.le_total 0 t with ht | ht
  · have := Int.tdiv_nonneg ht (by omega : 0 ≤ size)
    have := Int.tdiv_le_self size ht
    omega
  · have ht : 0 ≤ -t := by omega
    have := Int.tdiv_nonneg ht (by omega : 0 ≤ size)
    have := Int.tdiv_le_self size ht
    rw [Int.neg_tdiv] at *
    omega

section
variable {size : Int64} (hsize : 1 ≤ size.toInt)
include hsize

theorem exists_checkedRem? (t : Timestamp) :
    ∃ rem, checkedRem? t size = some rem ∧ rem.toInt = t.toInt.tmod size.toInt := by
  have hne : size ≠ 0 := by
    rintro rfl
    exact absurd hsize (by decide)
  have := t.minValue_le_toInt
  have := t.toInt_le
  have := size.toInt_le
  have := tdiv_between t.toInt hsize
  have := Int.lt_tmod_of_pos t.toInt (by omega : 0 < size.toInt)
  have := Int.tmod_lt_of_pos t.toInt (by omega : 0 < size.toInt)
  have : Int64.minValue.toInt < -Int64.maxValue.toInt ∧ 0 < Int64.maxValue.toInt := by decide
  obtain ⟨q, hq, -⟩ := exists_fit? (i := t.toInt.tdiv size.toInt) (by omega) (by omega)
  obtain ⟨rem, hrem, heq⟩ := exists_fit? (i := t.toInt.tmod size.toInt) (by omega) (by omega)
  exact ⟨rem, by rw [checkedRem?, if_neg hne, hq, hrem]; rfl, heq⟩

theorem exists_checkedRemFloor? (t : Timestamp) :
    ∃ offset, checkedRemFloor? t size = some offset ∧ offset.toInt = t.toInt % size.toInt := by
  obtain ⟨rem, hrem, heq⟩ := exists_checkedRem? hsize t
  have hneg : rem < 0 ↔ rem.toInt < 0 := Int64.lt_iff_toInt_lt
  have := Int.emod_nonneg t.toInt (by omega : size.toInt ≠ 0)
  have := Int.emod_lt_of_pos t.toInt (by omega : 0 < size.toInt)
  have := size.toInt_le
  have : Int64.minValue.toInt < 0 := by decide
  have habs : (size.toInt.natAbs : Int) = size.toInt := Int.natAbs_of_nonneg (by omega)
  rw [checkedRemFloor?, hrem]
  rw [Int.tmod_eq_emod] at heq
  split at heq
  · exact ⟨rem, if_neg (mt hneg.mp (by omega)), by omega⟩
  · obtain ⟨offset, hoffset, hoffset_eq⟩ :=
      exists_fit? (i := rem.toInt + size.toInt) (by omega) (by omega)
    exact ⟨offset, (if_pos (hneg.mpr (by omega))).trans hoffset, by omega⟩

end

end Timestamp

namespace WindowConfig
open Timestamp

/-- The window of a time, found step by step in 64 bits; nothing if a step overflows. -/
def checkedWindow? (c : WindowConfig) (time : Timestamp) : Option Window := do
  let offset ← checkedRemFloor? time c.size
  let rest ← fit? (c.size.toInt - offset.toInt)
  return { start := clamp (time.toInt - offset.toInt), stop := clamp (time.toInt + rest.toInt) }

variable {c : WindowConfig} {t u : Timestamp}

theorem stop_eq_start (h : c.index u = c.index t + 1) :
    (c.windowOf t).stop = (c.windowOf u).start := by
  rw [stop_windowOf, start_windowOf, h, Int.mul_add, Int.mul_one]

section
variable (hsize : 1 ≤ c.size.toInt)
include hsize

theorem checkedWindow?_eq (t : Timestamp) : c.checkedWindow? t = some (c.windowOf t) := by
  obtain ⟨offset, hoffset, heq⟩ := exists_checkedRemFloor? hsize t
  have := Int.emod_nonneg t.toInt (by omega : c.size.toInt ≠ 0)
  have := Int.emod_lt_of_pos t.toInt (by omega : 0 < c.size.toInt)
  have := c.size.toInt_le
  have : Int64.minValue.toInt < 0 := by decide
  obtain ⟨rest, hrest, hrest_eq⟩ :=
    exists_fit? (i := c.size.toInt - offset.toInt) (by omega) (by omega)
  rw [checkedWindow?, hoffset, windowOf, ← heq, ← hrest_eq]
  simp only [Option.bind_eq_bind, Option.bind_some, hrest]
  rfl

/-! ### Tiles -/

/-- The rest of a configuration does not matter to its windows, so it may be taken to be valid. -/
theorem valid_of_size : ({ size := c.size } : WindowConfig).Valid where
  size_pos := hsize
  grace_nonneg := show 0 ≤ (2000 : Int64).toInt by decide
  limit_pos := show 0 < 10 * 1024 * 1024 by decide

theorem windowOf_eq_iff : c.windowOf t = c.windowOf u ↔ c.index t = c.index u := by
  refine ⟨fun h => ?_, windowOf_eq_of_index_eq⟩
  have hstart : (c.windowOf t).start = (c.windowOf u).start := congrArg Window.start h
  exact Int.le_antisymm (index_le_of_start_le (valid_of_size hsize) (Int64.le_of_eq hstart))
    (index_le_of_start_le (valid_of_size hsize) (Int64.le_of_eq hstart.symm))

theorem stop_le_start (h : c.index t < c.index u) :
    (c.windowOf t).stop ≤ (c.windowOf u).start := by
  rw [stop_windowOf, start_windowOf]
  apply Timestamp.clamp_le_clamp
  calc c.size.toInt * c.index t + c.size.toInt = c.size.toInt * (c.index t + 1) := by
        rw [Int.mul_add, Int.mul_one]
    _ ≤ c.size.toInt * c.index u := Int.mul_le_mul_of_nonneg_left h (by omega)

/-- A time lies before the stop of its window, unless that was clamped. -/
theorem lt_stop_or_clamped (t : Timestamp) : t < (c.windowOf t).stop ∨
    (c.windowOf t).stop = Int64.maxValue ∧
      Int64.maxValue.toInt < c.size.toInt * c.index t + c.size.toInt := by
  have hlt : t.toInt < c.size.toInt * c.index t + c.size.toInt :=
    lt_size_mul_index_add (valid_of_size hsize) t
  rw [stop_windowOf]
  rcases Int.lt_or_le Int64.maxValue.toInt (c.size.toInt * c.index t + c.size.toInt) with h | h
  · exact .inr ⟨Timestamp.clamp_of_gt h, h⟩
  · refine .inl (Int64.lt_iff_toInt_lt.mpr ?_)
    rwa [Timestamp.toInt_clamp (by have := t.minValue_le_toInt; omega) h]

/-- The closed windows come first, however long the grace period. -/
theorem closed_of_closed (hindex : c.index t ≤ c.index u) {watermark : Option Timestamp}
    (h : c.phase watermark (c.windowOf u) = .closed) :
    c.phase watermark (c.windowOf t) = .closed := by
  obtain ⟨m, rfl, hm⟩ := phase_eq_closed_iff.mp h
  refine phase_eq_closed_iff.mpr ⟨m, rfl, Int64.le_trans ?_ hm⟩
  have hstop : (c.windowOf t).stop ≤ (c.windowOf u).stop := by
    rw [stop_windowOf, stop_windowOf]
    have := Int.mul_le_mul_of_nonneg_left hindex (by omega : 0 ≤ c.size.toInt)
    exact Timestamp.clamp_le_clamp (by omega)
  exact Timestamp.clamp_le_clamp (Int.add_le_add_right (Int64.le_iff_toInt_le.mp hstop) _)

/-- Whatever the window size, the windows of all timestamps tile their range.  The first and the last
may be clamped; every other one is as long as the window size, and starts at a multiple of it. -/
theorem windows_tile {a b : Timestamp} (hab : a ≤ b) :
    let size := c.size.toInt
    let n := a.toInt.fdiv size
    let m := b.toInt.fdiv size
    let v := c.windowOf a
    let w := c.windowOf b
    c.checkedWindow? a = some v ∧
    v.start ≤ a ∧
    (a < v.stop ∨ v.stop = Int64.maxValue ∧ Int64.maxValue.toInt < size * n + size) ∧
    (v = w ↔ n = m) ∧
    (v ≠ w → v.stop ≤ w.start) ∧
    (m = n + 1 → v.stop = w.start) ∧
    c.windowOf v.start = v ∧
    (Int64.minValue.toInt ≤ size * n → size * n + size ≤ Int64.maxValue.toInt →
      v.stop.toInt - v.start.toInt = size ∧ v.start.toInt = size * n) ∧
    ∀ watermark, c.phase watermark w = .closed → c.phase watermark v = .closed := by
  intro size n m v w
  have hn : n = c.index a := Int.fdiv_eq_ediv_of_nonneg _ (by omega)
  have hm : m = c.index b := Int.fdiv_eq_ediv_of_nonneg _ (by omega)
  have hle : c.index a ≤ c.index b := Int.ediv_le_ediv hsize (Int64.le_iff_toInt_le.mp hab)
  rw [hn, hm]
  refine ⟨checkedWindow?_eq hsize a, start_le (valid_of_size hsize) a, lt_stop_or_clamped hsize a,
    windowOf_eq_iff hsize, fun hne => ?_, stop_eq_start, windowOf_start (valid_of_size hsize) a,
    fun hmin hmax => ?_, fun watermark => closed_of_closed hsize hle⟩
  · exact stop_le_start hsize (Int.lt_iff_le_and_ne.mpr ⟨hle, mt (windowOf_eq_iff hsize).mpr hne⟩)
  · have hstart : v.start.toInt = size * c.index a := by
      rw [start_windowOf, Timestamp.toInt_clamp hmin (by omega)]
    have hstop : v.stop.toInt = size * c.index a + size := by
      rw [stop_windowOf, Timestamp.toInt_clamp (by omega) hmax]
    exact ⟨by omega, hstart⟩

end

/-- The window size is no power of two, so both the first and the last window are clamped. -/
theorem windows_tile_to_the_ends :
    let c : WindowConfig := { size := 10000, grace := 2000 }
    let first := c.windowOf Int64.minValue
    let last := c.windowOf Int64.maxValue
    let early := c.windowOf (-1)
    1 ≤ c.size.toInt ∧ Int64.minValue ≤ Int64.maxValue ∧ (-1 : Timestamp) ≤ 0 ∧
    first = ⟨Int64.minValue, -9223372036854770000⟩ ∧ c.windowOf first.start = first ∧
    last = ⟨9223372036854770000, Int64.maxValue⟩ ∧ c.windowOf last.start = last ∧
    first ≠ last ∧ first.stop ≤ last.start ∧
    c.phase (some Int64.maxValue) last = .closed ∧ c.phase (some Int64.maxValue) first = .closed ∧
    early.stop = (c.windowOf 0).start ∧
    early.stop.toInt - early.start.toInt = 10000 ∧ early.start.toInt = 10000 * -1 := by
  intro c first last early
  have hsize : 1 ≤ c.size.toInt := by decide
  have hle : Int64.minValue ≤ Int64.maxValue := by decide
  have hle' : (-1 : Timestamp) ≤ 0 := by decide
  have hne : first ≠ last := by decide
  have hclosed : c.phase (some Int64.maxValue) last = .closed := by decide
  obtain ⟨-, -, -, -, hstop, -, hfirst, -, hphase⟩ := windows_tile hsize hle
  obtain ⟨-, -, -, -, -, -, hlast, -⟩ := windows_tile hsize (Int64.le_refl Int64.maxValue)
  obtain ⟨-, -, -, -, -, hmeet, -, hwhole, -⟩ := windows_tile hsize hle'
  exact ⟨hsize, hle, hle', by decide, hfirst, by decide, hlast, hne, hstop hne, hclosed,
    hphase _ hclosed, hmeet (by decide), hwhole (by decide) (by decide)⟩

end WindowConfig
end CallTrace
