/-
  FluidClamp.Proofs.Number.Places
  ───────────────────────────────
  **ROUNDING RATIONALS TO DECIMAL PLACES.**

  For a rational that is not negative, rounding to places is the familiar

      ratToPlaces n q  =  ⌊q · 10^n + 1/2⌋ / 10^n

  in which a half goes up, and negating the rational negates the result, so that
  halves go away from zero on both sides.  The error is at most half a unit of
  the last place, and the order of two rationals is never reversed.
-/
import Mathlib.Data.Rat.Floor
import Mathlib.Tactic.FieldSimp
import Mathlib.Tactic.Linarith
import Mathlib.Tactic.NormNum
import Mathlib.Tactic.Positivity
import Mathlib.Tactic.Ring
import FluidClamp.Number.Scalar

namespace FluidClamp

/-! ## §1. The nearest whole number, halves up. -/

theorem roundDiv_awayFromZero (num : Nat) {den : Nat} (h : 0 < den) :
    roundDiv .awayFromZero num den = (2 * num + den) / (2 * den) := by
  have hsplit := Nat.div_add_mod num den
  have hlt := Nat.mod_lt num h
  have hnum : 2 * num + den = 2 * den * (num / den) + (2 * (num % den) + den) := by
    calc 2 * num + den = 2 * (den * (num / den) + num % den) + den := by rw [hsplit]
      _ = 2 * den * (num / den) + (2 * (num % den) + den) := by ring
  rw [hnum, Nat.mul_add_div (by omega)]
  unfold roundDiv
  by_cases hlow : 2 * (num % den) < den
  · have hzero : (2 * (num % den) + den) / (2 * den) = 0 := Nat.div_eq_of_lt (by omega)
    rw [if_pos hlow, hzero, Nat.add_zero]
  · have hone : (2 * (num % den) + den) / (2 * den) = 1 := by
      rw [Nat.div_eq_iff (by omega)]
      omega
    rw [if_neg hlow, hone]
    split
    · rfl
    · rfl

/-! ## §2. Rounding to places. -/

theorem ratToPlaces_of_nonneg (places : Nat) {q : Rat} (h : 0 ≤ q) :
    ratToPlaces places q = (⌊q * 10 ^ places + 1 / 2⌋ : Rat) / 10 ^ places := by
  have hscale : ((Nat.pow 10 places : Nat) : Rat) = 10 ^ places := by
    show ((10 ^ places : Nat) : Rat) = 10 ^ places
    push_cast
    ring
  obtain ⟨num, hnum⟩ := Int.eq_ofNat_of_zero_le (Rat.num_nonneg.2 h)
  -- as a quotient of whole numbers, whose floor is a division
  have hq : q * 10 ^ places + 1 / 2 =
      (((2 * (num * Nat.pow 10 places) + q.den : Nat) : Int) : Rat) /
        ((2 * q.den : Nat) : Rat) := by
    have hden : (q.den : Rat) ≠ 0 := by exact_mod_cast q.den_ne_zero
    have hnum' : (num : Rat) = q * q.den := by
      rw [Rat.mul_den_eq_num, hnum]
      rfl
    rw [Int.cast_natCast, Nat.cast_add, Nat.cast_mul, Nat.cast_mul, Nat.cast_mul, hscale, hnum']
    field_simp
    ring
  unfold ratToPlaces
  rw [if_neg (not_lt.2 h), Rat.mkRat_eq_div, roundDiv_awayFromZero _ q.den_pos, hq,
    Rat.floor_intCast_div_natCast, hscale, hnum]
  rfl

theorem ratToPlaces_neg (places : Nat) (q : Rat) :
    ratToPlaces places (-q) = -ratToPlaces places q := by
  unfold ratToPlaces
  rw [Rat.neg_num, Int.natAbs_neg, Rat.neg_den]
  rcases lt_trichotomy q 0 with h | h | h
  · have hneg : ¬ -q < 0 := by linarith
    simp only [hneg, h, if_true, if_false, neg_neg]
  · subst h
    simp [roundDiv]
  · have hneg : -q < 0 := by linarith
    have hpos : ¬ q < 0 := by linarith
    simp only [hneg, hpos, if_true, if_false]

/-- **Rounding errs by at most half a unit of the last place.** -/
theorem abs_ratToPlaces_sub_le (places : Nat) (q : Rat) :
    |ratToPlaces places q - q| ≤ 1 / (2 * 10 ^ places) := by
  have hscale : (0 : Rat) < 10 ^ places := by positivity
  -- what is negative is rounded like its negation
  suffices hpos : ∀ p : Rat, 0 ≤ p → |ratToPlaces places p - p| ≤ 1 / (2 * 10 ^ places) by
    rcases le_total 0 q with h | h
    · exact hpos q h
    · have hneg := hpos (-q) (by linarith)
      rw [ratToPlaces_neg, neg_sub_neg, abs_sub_comm] at hneg
      exact hneg
  intro p hp
  rw [ratToPlaces_of_nonneg places hp]
  have hfloor := Int.floor_le (p * 10 ^ places + 1 / 2)
  have hlt := Int.lt_floor_add_one (p * 10 ^ places + 1 / 2)
  have hdiff : (⌊p * 10 ^ places + 1 / 2⌋ : Rat) / 10 ^ places - p =
      ((⌊p * 10 ^ places + 1 / 2⌋ : Rat) - p * 10 ^ places) / 10 ^ places := by
    field_simp
  rw [hdiff, abs_div, abs_of_pos hscale, div_le_div_iff₀ hscale (by positivity)]
  have habs : |(⌊p * 10 ^ places + 1 / 2⌋ : Rat) - p * 10 ^ places| ≤ 1 / 2 := by
    rw [abs_le]
    constructor <;> linarith
  calc |(⌊p * 10 ^ places + 1 / 2⌋ : Rat) - p * 10 ^ places| * (2 * 10 ^ places)
      ≤ 1 / 2 * (2 * 10 ^ places) := by gcongr
    _ = 1 * 10 ^ places := by ring

theorem ratToPlaces_nonneg (places : Nat) {q : Rat} (h : 0 ≤ q) : 0 ≤ ratToPlaces places q := by
  rw [ratToPlaces_of_nonneg places h]
  have hfloor : (0 : Rat) ≤ ⌊q * 10 ^ places + 1 / 2⌋ := by
    exact_mod_cast Int.floor_nonneg.2 (by positivity)
  positivity

/-- **Rounding never reverses an order.** -/
theorem ratToPlaces_mono (places : Nat) : Monotone (ratToPlaces places) := by
  have hpos : ∀ p q : Rat, 0 ≤ p → p ≤ q → ratToPlaces places p ≤ ratToPlaces places q := by
    intro p q hp hpq
    rw [ratToPlaces_of_nonneg places hp, ratToPlaces_of_nonneg places (hp.trans hpq)]
    gcongr
  intro p q hpq
  -- across zero the signs alone decide
  rcases le_total 0 p with hp | hp
  · exact hpos p q hp hpq
  · rcases le_total 0 q with hq | hq
    · have hp' := ratToPlaces_nonneg places (neg_nonneg.2 hp)
      rw [ratToPlaces_neg] at hp'
      exact (neg_nonneg.1 hp').trans (ratToPlaces_nonneg places hq)
    · have hneg := hpos (-q) (-p) (by linarith) (by linarith)
      rw [ratToPlaces_neg, ratToPlaces_neg] at hneg
      exact neg_le_neg_iff.1 hneg

end FluidClamp
