/-
  FluidClamp.Proofs.Number.Shortest
  ─────────────────────────────────
  **THE DIGITS OF A NUMBER READ BACK.**

  A finite magnitude is a whole number over a power of two, so its decimal expansion
  ends, and being exact it reads back.  Digits are cut off it only where a decimal
  with fewer of them reads back too; what is left in the end is one that does:

      ofDecimal false x.shortest  =  |x|

  Reading looks at nothing but the value of a decimal, and hands its sign on, so the
  same digits with a sign read back as the number itself (`ofDecimal_shortest`).
-/
import FluidClamp.Proofs.Number.Signs
import Mathlib.Data.Nat.Prime.Basic

namespace FluidClamp.Binary64

/-! ## §1. Reading looks at the value. -/

/-- A decimal with the value of a magnitude is read as it. -/
theorem ofDecimal_of_toRat_eq (negative : Bool) {d : Decimal} {rank : Fin rankCount}
    (h : d.toRat = magnitude rank) : ofDecimal negative d = .finite negative rank := by
  rw [Decimal.toRat_eq_div] at h
  rw [ofDecimal_eq_ofQuotient]
  exact ofQuotient_eq_finite negative d.denominator_pos rank.isLt h

/-- **Decimals of one value are read alike**, if they are read as a finite number. -/
theorem ofDecimal_congr {negative : Bool} {d e : Decimal} (h : d.toRat = e.toRat)
    (hfinite : (ofDecimal negative d).isFinite = true) :
    ofDecimal negative e = ofDecimal negative d := by
  have hnearest := (ofDecimal_eq_iff negative d _).1 ⟨rfl, hfinite⟩
  rw [h] at hnearest
  exact ((ofDecimal_eq_iff negative e _).2 hnearest).1

theorem ofDecimal_not (negative : Bool) (d : Decimal) :
    ofDecimal (!negative) d = -ofDecimal negative d := by
  rw [ofDecimal_eq_ofQuotient, ofDecimal_eq_ofQuotient, ofQuotient_not]

/-- The sign of what is read is the one that was written. -/
theorem ofDecimal_of_eq_finite {d : Decimal} {rank : Fin rankCount}
    (h : ofDecimal false d = .finite false rank) (negative : Bool) :
    ofDecimal negative d = .finite negative rank := by
  cases negative with
  | false => exact h
  | true =>
    have hturned := ofDecimal_not false d
    rw [h] at hturned
    exact hturned

/-! ## §2. The exact expansion. -/

/-- The denominator of a magnitude is a power of two. -/
theorem exists_den_magnitude_eq (rank : Nat) : ∃ k, (magnitude rank).den = 2 ^ k := by
  have hdvd : (magnitude rank).den ∣ stepsPerOne := by
    have hdivInt := Rat.den_dvd (steps rank) stepsPerOne
    rw [← Rat.mkRat_eq_divInt] at hdivInt
    exact Int.natCast_dvd_natCast.1 hdivInt
  unfold stepsPerOne at hdvd
  generalize 1074 = ones at hdvd
  obtain ⟨k, -, hk⟩ := (Nat.dvd_prime_pow Nat.prime_two).1 hdvd
  exact ⟨k, hk⟩

theorem toRat_expansion (num k : Nat) : (expansion num k).toRat = num / 2 ^ k := by
  have hfive : ((Nat.pow 5 k : Nat) : Rat) = 5 ^ k := Nat.cast_pow 5 k
  have hten : (10 : Rat) ^ k = 5 ^ k * 2 ^ k := by
    rw [← mul_pow]
    norm_num
  have hne : (5 : Rat) ^ k ≠ 0 := pow_ne_zero _ (by norm_num)
  unfold expansion Decimal.toRat
  rw [Nat.cast_mul, hfive, zpow_neg, zpow_natCast, hten]
  field_simp

/-- **The expansion of a number is exact.** -/
theorem toRat_expansion_magnitude (rank : Nat) :
    (expansion (magnitude rank).num.natAbs (magnitude rank).den.log2).toRat = magnitude rank := by
  obtain ⟨k, hk⟩ := exists_den_magnitude_eq rank
  have hlog : (magnitude rank).den.log2 = k := by
    rw [hk]
    exact Nat.log2_two_pow
  have hden : (((magnitude rank).den : Nat) : Rat) = 2 ^ k := by
    rw [hk, Nat.cast_pow, Nat.cast_ofNat]
  rw [hlog, toRat_expansion, ← hden, natAbs_num_div_den, abs_of_nonneg (magnitude_nonneg rank)]

/-! ## §3. Cutting digits off. -/

/-- What is left after cutting reads back, if the whole does. -/
theorem ofDecimal_cut {x : Binary64} {exact : Decimal} (h : ofDecimal false exact = x.abs)
    (n : Nat) : ofDecimal false (shortest.cut x exact n) = x.abs := by
  induction n with
  | zero => exact h
  | succ n ih =>
    -- a decimal that was looked at reads back, or fewer digits are cut off
    have hreads : ∀ d, shortest.readsBack x d = true → ofDecimal false d = x.abs :=
      fun d hd => of_decide_eq_true hd
    unfold shortest.cut
    dsimp only
    split
    · next hlow hhigh =>
      split
      · exact hreads _ hlow
      · exact hreads _ hhigh
    · next hlow _ => exact hreads _ hlow
    · next _ hhigh => exact hreads _ hhigh
    · exact ih

/-- **The digits of a number read back**, with the sign that is written before them. -/
theorem ofDecimal_shortest (negative : Bool) (rank : Fin rankCount) :
    ofDecimal negative (finite false rank).shortest = .finite negative rank := by
  refine ofDecimal_of_eq_finite ?_ negative
  have hexact := ofDecimal_of_toRat_eq false (toRat_expansion_magnitude rank)
  have hshortest : (finite false rank).shortest =
      shortest.cut (finite false rank)
        (expansion (magnitude rank).num.natAbs (magnitude rank).den.log2)
        (Decimal.digitCount
          (expansion (magnitude rank).num.natAbs (magnitude rank).den.log2).coefficient) := by
    unfold shortest
    rw [toRat?_finite_false]
  rw [hshortest]
  exact ofDecimal_cut hexact _

end FluidClamp.Binary64
