/-! # Timestamps

Event times are signed 64-bit milliseconds since the epoch.  Sums and differences are taken over
the integers and then clamped to that range (`Timestamp.clamp`), so an operation at either end
of the range stays there instead of wrapping around.  An integer in range is kept
(`Timestamp.toInt_clamp`), and one beyond an end becomes that end (`Timestamp.clamp_of_lt`,
`Timestamp.clamp_of_gt`), so clamping keeps the order (`Timestamp.clamp_le_clamp`). -/

namespace CallTrace

abbrev Timestamp := Int64

namespace Timestamp

/-- The timestamp nearest to an integer. -/
def clamp (i : Int) : Timestamp := Int64.ofIntClamp i

/-- Milliseconds from `start` to `stop`, negative if `stop` is earlier. -/
def elapsed (start stop : Timestamp) : Timestamp := clamp (stop.toInt - start.toInt)

theorem toInt_clamp {i : Int} (lo : Int64.minValue.toInt ≤ i) (hi : i ≤ Int64.maxValue.toInt) :
    (clamp i).toInt = i := by
  unfold clamp Int64.ofIntClamp
  rw [dif_pos lo, dif_pos hi, Int64.toInt_ofIntLE]

theorem clamp_of_lt {i : Int} (h : i < Int64.minValue.toInt) : clamp i = Int64.minValue := by
  unfold clamp Int64.ofIntClamp
  rw [dif_neg (Int.not_le.mpr h)]

theorem clamp_of_gt {i : Int} (h : Int64.maxValue.toInt < i) : clamp i = Int64.maxValue := by
  have lo : Int64.minValue.toInt ≤ i :=
    Int.le_of_lt (Int.lt_of_le_of_lt (Int64.le_iff_toInt_le.mp (by decide)) h)
  unfold clamp Int64.ofIntClamp
  rw [dif_pos lo, dif_neg (Int.not_le.mpr h)]

theorem toInt_clamp_eq (i : Int) :
    (clamp i).toInt = max Int64.minValue.toInt (min i Int64.maxValue.toInt) := by
  have lo_le_hi : Int64.minValue.toInt ≤ Int64.maxValue.toInt := by decide
  rcases Int.lt_or_le i Int64.minValue.toInt with h | h
  · rw [clamp_of_lt h]
    omega
  · rcases Int.lt_or_le Int64.maxValue.toInt i with h' | h'
    · rw [clamp_of_gt h']
      omega
    · rw [toInt_clamp h h']
      omega

theorem clamp_le_clamp {i j : Int} (h : i ≤ j) : clamp i ≤ clamp j := by
  rw [Int64.le_iff_toInt_le, toInt_clamp_eq, toInt_clamp_eq]
  omega

/-- A longer interval lasts longer. -/
theorem elapsed_le_elapsed {start start' stop stop' : Timestamp} (hstart : start' ≤ start)
    (hstop : stop ≤ stop') : elapsed start stop ≤ elapsed start' stop' := by
  rw [Int64.le_iff_toInt_le] at hstart hstop
  apply clamp_le_clamp
  omega

end Timestamp
end CallTrace
