/-
  FluidClamp.Number.Rounding
  ──────────────────────────
  **ROUNDING A QUOTIENT TO A WHOLE NUMBER.**

  Every rounding of the library is one of two kinds: to the nearest binary64
  magnitude, or to the nearest multiple of a power of ten.  Both come down to
  `roundDiv tie num den`, the whole number nearest to `num / den`, which is
  computed from the quotient and the remainder alone:

      2 · |roundDiv tie num den · den − num|  ≤  den

  and a quotient that lies exactly halfway goes where the `TieRule` says.
-/

namespace FluidClamp

/-! ## §1. Halfway cases. -/

/-- Where a quotient goes that lies exactly halfway between two whole numbers. -/
inductive TieRule where
  /-- To the even one of the two. -/
  | toEven
  /-- To the larger one (the magnitude grows). -/
  | awayFromZero
  deriving Repr, DecidableEq

/-- The neighbour of `low` and `low + 1` that a tie between them takes. -/
def TieRule.pick (low : Nat) : TieRule → Nat
  | .toEven => low + low % 2
  | .awayFromZero => low + 1

/-! ## §2. The nearest whole number. -/

/-- **The nearest whole number** to `num / den`. -/
def roundDiv (tie : TieRule) (num den : Nat) : Nat :=
  if 2 * (num % den) < den then num / den
  else if den < 2 * (num % den) then num / den + 1
  else tie.pick (num / den)

/-- A whole quotient is its own rounding. -/
theorem roundDiv_mul_right (tie : TieRule) (n den : Nat) (h : 0 < den) :
    roundDiv tie (n * den) den = n := by
  simp [roundDiv, Nat.mul_div_cancel n h, h]

theorem TieRule.le_pick (low : Nat) (tie : TieRule) : low ≤ tie.pick low := by
  cases tie <;> simp [TieRule.pick]

theorem TieRule.pick_le (low : Nat) (tie : TieRule) : tie.pick low ≤ low + 1 := by
  cases tie
  · simp only [TieRule.pick]
    omega
  · exact Nat.le_refl _

/-- Rounding keeps the quotient or takes the next whole number. -/
theorem div_le_roundDiv (tie : TieRule) (num den : Nat) :
    num / den ≤ roundDiv tie num den := by
  unfold roundDiv
  split
  · exact Nat.le_refl _
  · split
    · exact Nat.le_succ _
    · exact TieRule.le_pick _ _

theorem roundDiv_le_div_add_one (tie : TieRule) (num den : Nat) :
    roundDiv tie num den ≤ num / den + 1 := by
  unfold roundDiv
  split
  · exact Nat.le_succ _
  · split
    · exact Nat.le_refl _
    · exact TieRule.pick_le _ _

/-- Exactly halfway, a tie to even gives an even number. -/
theorem roundDiv_toEven_of_tie {num den : Nat} (h : 2 * (num % den) = den) :
    roundDiv .toEven num den % 2 = 0 := by
  simp only [roundDiv, h, Nat.lt_irrefl, if_false, TieRule.pick]
  omega

end FluidClamp
