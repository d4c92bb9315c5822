/-
  FluidClamp.Proofs.Number.Closest
  ────────────────────────────────
  **ROUNDING GIVES THE NEAREST NUMBER.**

  `roundDiv` errs by at most half, so it is nearest among the whole numbers, and two
  whole numbers are equally near only halfway between them.  A quotient is rounded in
  the unit of its binade, and the magnitudes are

      multiples of the unit       as near as a whole number of units can be
      below the binade            farther than its first magnitude

  so the magnitude that `nearestRank` finds is the nearest of all, and of two equally
  near ones that of the even rank (`isNearest_ofQuotient`).  In particular magnitudes
  round to themselves, and other values move by less than one part in 2^53.
-/
import FluidClamp.Proofs.Number.Nearest

namespace FluidClamp

/-! ## §1. The nearest whole number. -/

/-- How far a rounded quotient is from the quotient. -/
theorem exists_roundDiv_mul_eq (tie : TieRule) (num : Nat) {den : Nat} (hden : 0 < den) :
    ∃ error : Int, (roundDiv tie num den : Int) * den = num + error ∧ |2 * error| ≤ den ∧
      (|2 * error| = den → 2 * (num % den) = den) := by
  have hsplit : (den : Int) * (num / den : Nat) + (num % den : Nat) = num := by
    exact_mod_cast Nat.div_add_mod num den
  have hmod := Nat.mod_lt num hden
  have hlow : ((num / den : Nat) : Int) * den = num + -((num % den : Nat) : Int) := by linarith
  have hhigh : ((num / den + 1 : Nat) : Int) * den = num + (den - (num % den : Nat) : Int) := by
    rw [Nat.cast_add, Nat.cast_one, add_mul, one_mul]
    linarith
  unfold roundDiv
  split
  · refine ⟨_, hlow, ?_⟩
    rw [abs_of_nonpos (by omega)]
    omega
  · split
    · refine ⟨_, hhigh, ?_⟩
      rw [abs_of_nonneg (by omega)]
      omega
    · -- exactly halfway, on either side
      have hhalf : 2 * (num % den) = den := by omega
      have hcases : tie.pick (num / den) = num / den ∨ tie.pick (num / den) = num / den + 1 := by
        have hge := TieRule.le_pick (num / den) tie
        have hle := TieRule.pick_le (num / den) tie
        omega
      rcases hcases with hpick | hpick
      · rw [hpick]
        refine ⟨_, hlow, ?_⟩
        rw [abs_of_nonpos (by omega)]
        omega
      · rw [hpick]
        refine ⟨_, hhigh, ?_⟩
        rw [abs_of_nonneg (by omega)]
        omega

section

variable (num : Nat) {den : Nat}

/-- **Rounding errs by at most half**, and by half only halfway. -/
theorem abs_roundDiv_sub_le_half (tie : TieRule) (hden : 0 < den) :
    |(roundDiv tie num den : Rat) - num / den| ≤ 1 / 2 ∧
      (|(roundDiv tie num den : Rat) - num / den| = 1 / 2 → 2 * (num % den) = den) := by
  obtain ⟨error, herror, hle, htie⟩ := exists_roundDiv_mul_eq tie num hden
  have hpos : (0 : Rat) < den := Nat.cast_pos.2 hden
  have hquotient : (roundDiv tie num den : Rat) - num / den = error / den := by
    have hcast : (roundDiv tie num den : Rat) * den = num + error := by exact_mod_cast herror
    field_simp
    linarith
  have habs : |(roundDiv tie num den : Rat) - num / den| = |(error : Rat)| / den := by
    rw [hquotient, abs_div, abs_of_pos hpos]
  have hle' : 2 * |(error : Rat)| ≤ den := by
    rw [abs_mul, abs_two] at hle
    exact_mod_cast hle
  rw [habs]
  constructor
  · rw [div_le_div_iff₀ hpos two_pos]
    linarith
  · intro heq
    apply htie
    rw [div_eq_div_iff hpos.ne' two_ne_zero] at heq
    rw [abs_mul, abs_two]
    have hcast : 2 * |(error : Rat)| = den := by linarith
    exact_mod_cast hcast

theorem one_le_abs_sub {m k : Int} (h : m ≠ k) : (1 : Rat) ≤ |(m : Rat) - k| := by
  rw [← Int.cast_sub, ← Int.cast_abs]
  exact_mod_cast Int.one_le_abs (sub_ne_zero.2 h)

/-- **No whole number is nearer** than the rounded one. -/
theorem abs_roundDiv_sub_le (tie : TieRule) (hden : 0 < den) (k : Int) :
    |(roundDiv tie num den : Rat) - num / den| ≤ |(k : Rat) - num / den| := by
  by_cases h : (roundDiv tie num den : Int) = k
  · rw [← h, Int.cast_natCast]
  · have hhalf := (abs_roundDiv_sub_le_half num tie hden).1
    have hone := one_le_abs_sub h
    rw [Int.cast_natCast] at hone
    have htriangle := abs_sub_le (roundDiv tie num den : Rat) (num / den) k
    rw [abs_sub_comm ((num : Rat) / den) k] at htriangle
    linarith

/-- Another whole number is as near only halfway between the two. -/
theorem two_mul_mod_eq_of_abs_eq (tie : TieRule) (hden : 0 < den) {k : Int}
    (hne : k ≠ roundDiv tie num den)
    (h : |(k : Rat) - num / den| = |(roundDiv tie num den : Rat) - num / den|) :
    2 * (num % den) = den := by
  obtain ⟨hhalf, htie⟩ := abs_roundDiv_sub_le_half num tie hden
  have hone := one_le_abs_sub (Ne.symm hne)
  rw [Int.cast_natCast] at hone
  have htriangle := abs_sub_le (roundDiv tie num den : Rat) (num / den) k
  rw [abs_sub_comm ((num : Rat) / den) k] at htriangle
  exact htie (by linarith)

end

namespace Binary64

/-! ## §2. The nearest magnitude. -/

section

variable (num : Nat) {den : Nat}

/-- The unit in which a quotient is rounded. -/
def unitOf (num den : Nat) : Rat :=
  (Nat.pow 2 (shiftOf (num * stepsPerOne) den) : Nat) / (stepsPerOne : Nat)

theorem unitOf_pos (den : Nat) : 0 < unitOf num den :=
  div_pos (Nat.cast_pos.2 (two_pow_pos _)) (Nat.cast_pos.2 stepsPerOne_pos)

/-- The quotient in its unit. -/
theorem div_eq_mul_unitOf (hden : 0 < den) :
    (num : Rat) / den = ((num * stepsPerOne : Nat) : Rat) /
      (den * Nat.pow 2 (shiftOf (num * stepsPerOne) den) : Nat) * unitOf num den := by
  have hone : ((stepsPerOne : Nat) : Rat) ≠ 0 := Nat.cast_ne_zero.2 stepsPerOne_pos.ne'
  have hpow : ((Nat.pow 2 (shiftOf (num * stepsPerOne) den) : Nat) : Rat) ≠ 0 :=
    Nat.cast_ne_zero.2 (two_pow_pos _).ne'
  have hden' : (den : Rat) ≠ 0 := Nat.cast_ne_zero.2 hden.ne'
  unfold unitOf
  rw [Nat.cast_mul, Nat.cast_mul]
  field_simp

theorem magnitude_nearestRank (hden : 0 < den) :
    magnitude (nearestRank (num * stepsPerOne) den) =
      significandOf (num * stepsPerOne) den * unitOf num den := by
  unfold unitOf
  rw [magnitude_eq_div, steps_nearestRank hden, Nat.cast_mul, mul_div_assoc]

/-- The distance of a number of units. -/
theorem abs_mul_unitOf_sub (hden : 0 < den) (k : Rat) :
    |k * unitOf num den - num / den| =
      |k - ((num * stepsPerOne : Nat) : Rat) /
        (den * Nat.pow 2 (shiftOf (num * stepsPerOne) den) : Nat)| * unitOf num den := by
  rw [div_eq_mul_unitOf num hden, ← sub_mul, abs_mul, abs_of_pos (unitOf_pos num den)]

/-- **Every magnitude** is a whole number of units, or it is below the binade of the
quotient. -/
theorem magnitude_cases (hden : 0 < den) (rank : Nat) :
    (∃ k : Nat, magnitude rank = k * unitOf num den) ∨
      magnitude rank < binade * unitOf num den ∧
        binade * unitOf num den ≤ (num : Rat) / den := by
  have hone : (0 : Rat) < (stepsPerOne : Nat) := Nat.cast_pos.2 stepsPerOne_pos
  by_cases hrank : shiftOf (num * stepsPerOne) den = 0 ∨
      shiftOf (num * stepsPerOne) den * binade + binade ≤ rank
  · left
    obtain ⟨k, hk⟩ := two_pow_dvd_steps hrank
    refine ⟨k, ?_⟩
    unfold unitOf
    rw [magnitude_eq_div, hk, Nat.cast_mul]
    ring
  · right
    rw [not_or, not_le] at hrank
    obtain ⟨hshift, hlow⟩ := hrank
    have hfirst : binade * unitOf num den = magnitude
        (shiftOf (num * stepsPerOne) den * binade + binade) := by
      unfold unitOf
      rw [magnitude_eq_div, steps_mul_add (by omega) (.inr (Nat.le_refl _)), Nat.cast_mul,
        mul_div_assoc]
    rw [hfirst]
    refine ⟨magnitude_strictMono hlow, ?_⟩
    rw [magnitude_le_div_iff hden, steps_mul_add (by omega) (.inr (Nat.le_refl _))]
    calc binade * Nat.pow 2 (shiftOf (num * stepsPerOne) den) * den
        = binade * (den * Nat.pow 2 (shiftOf (num * stepsPerOne) den)) := by ring
      _ ≤ num * stepsPerOne := le_num hden hshift

/-- No number of units is nearer than the rounded significand. -/
theorem abs_magnitude_nearestRank_sub_le_mul (hden : 0 < den) (k : Nat) :
    |magnitude (nearestRank (num * stepsPerOne) den) - num / den| ≤
      |k * unitOf num den - num / den| := by
  rw [magnitude_nearestRank num hden, abs_mul_unitOf_sub num hden, abs_mul_unitOf_sub num hden]
  refine mul_le_mul_of_nonneg_right ?_ (unitOf_pos num den).le
  have hscaled : 0 < den * Nat.pow 2 (shiftOf (num * stepsPerOne) den) := scaled_pos hden
  have hle := abs_roundDiv_sub_le (num * stepsPerOne) .toEven hscaled k
  rw [Int.cast_natCast] at hle
  exact hle

/-- A magnitude below the binade is farther away. -/
theorem abs_magnitude_nearestRank_sub_lt (hden : 0 < den) {rank : Nat}
    (hlow : magnitude rank < binade * unitOf num den)
    (hle : binade * unitOf num den ≤ (num : Rat) / den) :
    |magnitude (nearestRank (num * stepsPerOne) den) - num / den| <
      |magnitude rank - num / den| := by
  refine (abs_magnitude_nearestRank_sub_le_mul num hden binade).trans_lt ?_
  rw [abs_of_nonpos (sub_nonpos.2 hle), abs_of_nonpos (sub_nonpos.2 (hlow.le.trans hle))]
  linarith

/-- **No magnitude is nearer** than that of the nearest rank. -/
theorem abs_magnitude_nearestRank_sub_le (hden : 0 < den) (rank : Nat) :
    |magnitude (nearestRank (num * stepsPerOne) den) - num / den| ≤
      |magnitude rank - num / den| := by
  rcases magnitude_cases num hden rank with ⟨k, hk⟩ | ⟨hlow, hle⟩
  · rw [hk]
    exact abs_magnitude_nearestRank_sub_le_mul num hden k
  · exact (abs_magnitude_nearestRank_sub_lt num hden hlow hle).le

/-- **Of two equally near magnitudes** the even rank is taken. -/
theorem nearestRank_mod_two_of_abs_eq (hden : 0 < den) {rank : Nat}
    (hne : magnitude rank ≠ magnitude (nearestRank (num * stepsPerOne) den))
    (h : |magnitude rank - num / den| =
      |magnitude (nearestRank (num * stepsPerOne) den) - num / den|) :
    nearestRank (num * stepsPerOne) den % 2 = 0 := by
  rcases magnitude_cases num hden rank with ⟨k, hk⟩ | ⟨hlow, hle⟩
  · rw [magnitude_nearestRank num hden, hk] at hne h
    rw [abs_mul_unitOf_sub num hden, abs_mul_unitOf_sub num hden] at h
    have hsignificand : ((k : Nat) : Int) ≠ significandOf (num * stepsPerOne) den := by
      intro heq
      rw [Int.natCast_inj.1 heq] at hne
      exact hne rfl
    have hdistance := mul_right_cancel₀ (unitOf_pos num den).ne' h
    have htie := two_mul_mod_eq_of_abs_eq _ .toEven (scaled_pos hden) hsignificand
      (by rw [Int.cast_natCast]; exact hdistance)
    have heven : significandOf (num * stepsPerOne) den % 2 = 0 := roundDiv_toEven_of_tie htie
    have hbinade : binade % 2 = 0 := by decide
    rw [nearestRank_eq, Nat.add_mod, Nat.mul_mod, hbinade, heven, Nat.mul_zero, Nat.zero_mod]
  · exact absurd h (abs_magnitude_nearestRank_sub_lt num hden hlow hle).ne'

end

/-! ## §3. Values that are magnitudes. -/

theorem nearestRank_eq_of_div_eq (num : Nat) {den rank : Nat} (hden : 0 < den)
    (h : (num : Rat) / den = magnitude rank) : nearestRank (num * stepsPerOne) den = rank :=
  Nat.le_antisymm (nearestRank_le hden ((div_le_magnitude_iff hden).1 h.le))
    (le_nearestRank hden ((magnitude_le_div_iff hden).1 h.ge))

/-- **A magnitude rounds to itself.** -/
theorem ofQuotient_eq_finite (negative : Bool) {num den rank : Nat} (hden : 0 < den)
    (hrank : rank < rankCount) (h : (num : Rat) / den = magnitude rank) :
    ofQuotient negative num den = .finite negative ⟨rank, hrank⟩ := by
  unfold ofQuotient
  simp only [nearestRank_eq_of_div_eq num hden h, hrank, dif_pos]

theorem toRat?_ofRat_of_abs_eq (negativeZero : Bool) {q : Rat} {rank : Nat}
    (hrank : rank < rankCount) (h : |q| = magnitude rank) :
    (ofRat negativeZero q).toRat? = some q := by
  rw [← natAbs_num_div_den q] at h
  have hvalue : finiteValue (if q = 0 then negativeZero else decide (q < 0)) rank = q := by
    rw [natAbs_num_div_den] at h
    rw [finiteValue_eq, ← h]
    by_cases hzero : q = 0
    · rw [hzero, abs_zero, neg_zero, ite_self]
    · rw [if_neg hzero]
      by_cases hneg : q < 0
      · rw [decide_eq_true hneg, if_pos rfl, abs_of_neg hneg]
        ring
      · rw [decide_eq_false hneg, if_neg Bool.false_ne_true, abs_of_nonneg (not_lt.1 hneg)]
  unfold ofRat
  rw [ofQuotient_eq_finite _ q.den_pos hrank h]
  exact congrArg some hvalue

/-- A significand in any unit is a number of steps. -/
theorem exists_steps_eq_mul_two_pow {m : Nat} (hm : m < 2 * binade) (k : Nat) :
    ∃ rank, steps rank = m * Nat.pow 2 k := by
  induction k generalizing m with
  | zero =>
    have hsteps := steps_mul_add hm.le (.inl (Eq.refl 0))
    exact ⟨0 * binade + m, hsteps⟩
  | succ k ih =>
    by_cases hlow : binade ≤ m
    · exact ⟨(k + 1) * binade + m, steps_mul_add hm.le (.inr hlow)⟩
    · -- a smaller significand is doubled, in half the unit
      obtain ⟨rank, hrank⟩ := ih (show 2 * m < 2 * binade by omega)
      have hpow : Nat.pow 2 (k + 1) = 2 * Nat.pow 2 k := Nat.pow_succ'
      refine ⟨rank, ?_⟩
      rw [hrank, hpow]
      ring

theorem lt_rankCount_of_magnitude_le {rank : Nat} (h : magnitude rank ≤ 2 ^ 1023) :
    rank < rankCount := by
  obtain ⟨high, hhigh, hpow⟩ := exists_magnitude_eq_two_pow (Nat.le_refl 1023)
  rw [← hpow, magnitude_strictMono.le_iff_le] at h
  exact Nat.lt_of_le_of_lt h hhigh

theorem cast_lt_two_pow {m : Nat} (hm : m < 2 * binade) : (m : Rat) < 2 ^ 53 := by
  have hbound : 2 * binade = 2 ^ 53 := by decide
  rw [hbound] at hm
  exact_mod_cast hm

theorem magnitude_of_steps_eq_mul {rank m k : Nat} {q : Rat}
    (h : steps rank = m * Nat.pow 2 k) (hq : q * (stepsPerOne : Nat) = m * 2 ^ k) :
    magnitude rank = q := by
  have hone : ((stepsPerOne : Nat) : Rat) ≠ 0 := Nat.cast_ne_zero.2 stepsPerOne_pos.ne'
  rw [magnitude_eq_div, h, Nat.cast_mul, cast_two_pow, ← hq]
  exact mul_div_cancel_right₀ _ hone

/-- **Significands times powers of two** are magnitudes. -/
theorem exists_magnitude_eq_mul_two_pow {m k : Nat} (hm : m < 2 * binade) (hk : k ≤ 970) :
    ∃ rank < rankCount, magnitude rank = m * 2 ^ k := by
  obtain ⟨rank, hrank⟩ := exists_steps_eq_mul_two_pow hm (k + 1074)
  have hmagnitude : magnitude rank = m * 2 ^ k := by
    have hone := cast_stepsPerOne
    generalize 1074 = ones at hrank hone
    apply magnitude_of_steps_eq_mul hrank
    rw [hone, pow_add, mul_assoc]
  refine ⟨rank, lt_rankCount_of_magnitude_le ?_, hmagnitude⟩
  rw [hmagnitude]
  have hm' := (cast_lt_two_pow hm).le
  have hpow : (2 : Rat) ^ k ≤ 2 ^ 970 := pow_le_pow_right₀ one_le_two hk
  have hall : (2 : Rat) ^ 1023 = 2 ^ 53 * 2 ^ 970 := pow_add 2 53 970
  rw [hall]
  gcongr

/-- **Significands over powers of two** are magnitudes. -/
theorem exists_magnitude_eq_div_two_pow {m k : Nat} (hm : m < 2 * binade) (hk : k ≤ 1074) :
    ∃ rank < rankCount, magnitude rank = m / 2 ^ k := by
  obtain ⟨rank, hrank⟩ := exists_steps_eq_mul_two_pow hm (1074 - k)
  have hmagnitude : magnitude rank = m / 2 ^ k := by
    have hone := cast_stepsPerOne
    generalize 1074 = ones at hrank hone hk
    apply magnitude_of_steps_eq_mul hrank
    rw [hone, ← pow_sub_mul_pow 2 hk]
    field_simp
  refine ⟨rank, lt_rankCount_of_magnitude_le ?_, hmagnitude⟩
  rw [hmagnitude]
  have hpow : (2 : Rat) ^ 53 ≤ 2 ^ 1023 := pow_le_pow_right₀ one_le_two (by omega)
  calc (m : Rat) / 2 ^ k ≤ m := div_le_self (Nat.cast_nonneg m) (one_le_pow₀ one_le_two)
    _ ≤ 2 ^ 53 := (cast_lt_two_pow hm).le
    _ ≤ 2 ^ 1023 := hpow

/-! ## §4. How far other values move. -/

theorem cast_binade : ((binade : Nat) : Rat) = 2 ^ 52 := by
  have hpow : binade = 2 ^ 52 := by decide
  rw [hpow, Nat.cast_pow]
  rfl

/-- Above the smallest numbers the quotient has all the bits of a significand. -/
theorem binade_le_div (num : Nat) {den : Nat} (hden : 0 < den)
    (h : (2 ^ 1022)⁻¹ ≤ (num : Rat) / den) :
    binade * (den * Nat.pow 2 (shiftOf (num * stepsPerOne) den)) ≤ num * stepsPerOne := by
  by_cases hshift : shiftOf (num * stepsPerOne) den = 0
  · rw [hshift, Nat.mul_one]
    have hone : ((stepsPerOne : Nat) : Rat) = binade * 2 ^ 1022 := by
      rw [cast_stepsPerOne, cast_binade]
      exact pow_add 2 52 1022
    have hden' : (0 : Rat) < den := Nat.cast_pos.2 hden
    have hpow : (0 : Rat) < 2 ^ 1022 := pow_pos two_pos _
    have hle : ((binade * den : Nat) : Rat) ≤ (num * stepsPerOne : Nat) := by
      rw [inv_eq_one_div, div_le_div_iff₀ hpow hden', one_mul] at h
      rw [Nat.cast_mul, Nat.cast_mul, hone]
      calc (binade : Rat) * den ≤ binade * (num * 2 ^ 1022) :=
            mul_le_mul_of_nonneg_left h (Nat.cast_nonneg _)
        _ = num * (binade * 2 ^ 1022) := mul_left_comm _ _ _
    exact Nat.cast_le.1 hle
  · exact le_num hden hshift

/-- **Rounding moves a value by less than one part in 2^53**, above the smallest
numbers. -/
theorem abs_magnitude_nearestRank_sub_lt_mul (num : Nat) {den : Nat} (hden : 0 < den)
    (h : (2 ^ 1022)⁻¹ ≤ (num : Rat) / den) :
    |magnitude (nearestRank (num * stepsPerOne) den) - num / den| <
      (2 ^ 53)⁻¹ * ((num : Rat) / den) := by
  have hle := binade_le_div num hden h
  have hscaled : 0 < den * Nat.pow 2 (shiftOf (num * stepsPerOne) den) := scaled_pos hden
  have hunit := unitOf_pos num den
  rw [magnitude_nearestRank num hden, abs_mul_unitOf_sub num hden]
  rw [div_eq_mul_unitOf num hden, ← mul_assoc]
  refine mul_lt_mul_of_pos_right ?_ hunit
  unfold significandOf
  generalize den * Nat.pow 2 (shiftOf (num * stepsPerOne) den) = scaled at hle hscaled ⊢
  generalize num * stepsPerOne = steps at hle ⊢
  have hscaled' : (0 : Rat) < scaled := Nat.cast_pos.2 hscaled
  rcases Nat.eq_or_lt_of_le hle with heq | hlt
  · -- the first of a binade is a number already
    have hquotient : ((steps : Nat) : Rat) / scaled = binade := by
      rw [← heq, Nat.cast_mul]
      exact mul_div_cancel_right₀ _ hscaled'.ne'
    rw [← heq, roundDiv_mul_right _ _ _ hscaled, heq, hquotient, sub_self, abs_zero]
    exact mul_pos (inv_pos.2 (pow_pos two_pos _)) (Nat.cast_pos.2 binade_pos)
  · have hhalf := (abs_roundDiv_sub_le_half steps .toEven hscaled).1
    have hquotient : (binade : Rat) < steps / scaled := by
      rw [lt_div_iff₀ hscaled']
      exact_mod_cast hlt
    rw [cast_binade] at hquotient
    linarith

/-! ## §5. The nearest number. -/

/-- **The finite number nearest to a rational**; of two that are equally near, the one
whose last bit is zero. -/
structure IsNearest (q : Rat) (x : Binary64) : Prop where
  nearest : ∃ p, x.toRat? = some p ∧ ∀ (y : Binary64) r, y.toRat? = some r → |p - q| ≤ |r - q|
  even_of_tie : ∀ (y : Binary64) p r, x.toRat? = some p → y.toRat? = some r → r ≠ p →
    |r - q| = |p - q| → x.toWord % 2 = 0

/-- A magnitude with a sign. -/
def signed (negative : Bool) (q : Rat) : Rat := if negative then -q else q

theorem finiteValue_eq_signed (negative : Bool) (rank : Nat) :
    finiteValue negative rank = signed negative (magnitude rank) := finiteValue_eq negative rank

theorem abs_signed_sub (negative : Bool) (p q : Rat) :
    |signed negative p - signed negative q| = |p - q| := by
  unfold signed
  cases negative with
  | false => rfl
  | true => rw [if_pos rfl, if_pos rfl, neg_sub_neg, abs_sub_comm]

/-- Numbers of unlike signs are as far apart as both are from zero. -/
theorem abs_signed_sub_of_ne {s t : Bool} (h : s ≠ t) {p q : Rat} (hp : 0 ≤ p) (hq : 0 ≤ q) :
    |signed s p - signed t q| = p + q := by
  obtain rfl : s = !t := by
    cases s <;> cases t <;> first | rfl | exact absurd rfl h
  unfold signed
  cases t with
  | false =>
    rw [Bool.not_false, if_pos rfl, if_neg Bool.false_ne_true, abs_of_nonpos (by linarith)]
    ring
  | true =>
    rw [Bool.not_true, if_pos rfl, if_neg Bool.false_ne_true, abs_of_nonneg (by linarith)]
    ring

theorem abs_sub_le_abs_signed_sub (s t : Bool) {p q : Rat} (hp : 0 ≤ p) (hq : 0 ≤ q) :
    |p - q| ≤ |signed s p - signed t q| := by
  by_cases h : s = t
  · rw [h, abs_signed_sub]
  · rw [abs_signed_sub_of_ne h hp hq]
    exact abs_le.2 ⟨by linarith, by linarith⟩

theorem signed_zero (negative : Bool) : signed negative 0 = 0 := by
  unfold signed
  rw [neg_zero, ite_self]

/-- The last bit of a word is that of the rank. -/
theorem toWord_finite_mod_two (negative : Bool) (rank : Fin rankCount) :
    (finite negative rank).toWord % 2 = rank.val % 2 := by
  have hweight : ∀ negative, toWord.signBit negative % 2 = 0 := by decide
  have hword : (finite negative rank).toWord = toWord.signBit negative + rank := rfl
  rw [hword, Nat.add_mod, hweight, Nat.zero_add, Nat.mod_mod]

/-- **A quotient is rounded to the nearest number**, unless that is infinite. -/
theorem isNearest_ofQuotient (negative : Bool) (num : Nat) {den : Nat} (hden : 0 < den)
    (hfinite : (ofQuotient negative num den).isFinite = true) :
    IsNearest (signed negative (num / den)) (ofQuotient negative num den) := by
  have hvalue : (0 : Rat) ≤ num / den := div_nonneg (Nat.cast_nonneg _) (Nat.cast_nonneg _)
  by_cases hrank : nearestRank (num * stepsPerOne) den < rankCount
  · have hsigned := toRat?_ofQuotient negative hrank
    rw [finiteValue_eq_signed] at hsigned
    refine ⟨⟨_, hsigned, ?_⟩, ?_⟩
    · intro y r hy
      obtain ⟨s, rank, -, rfl⟩ := toRat?_eq_some_iff.1 hy
      rw [finiteValue_eq_signed, abs_signed_sub]
      exact (abs_magnitude_nearestRank_sub_le num hden rank).trans
        (abs_sub_le_abs_signed_sub _ _ (magnitude_nonneg _) hvalue)
    · intro y p r hx hy hne htie
      obtain rfl := Option.some.inj (hsigned.symm.trans hx)
      obtain ⟨s, rank, -, rfl⟩ := toRat?_eq_some_iff.1 hy
      have hlast : (ofQuotient negative num den).toWord % 2 =
          nearestRank (num * stepsPerOne) den % 2 := by
        unfold ofQuotient
        simp only [hrank, dif_pos]
        exact toWord_finite_mod_two negative ⟨_, hrank⟩
      rw [finiteValue_eq_signed] at hne htie
      -- a number of the other sign is as near only if it is zero, which has both
      have hsign : signed s (magnitude rank) = signed negative (magnitude rank) := by
        by_cases hs : s = negative
        · rw [hs]
        · have hzero := abs_magnitude_nearestRank_sub_le num hden 0
          rw [magnitude_zero, abs_sub_comm 0, sub_zero, abs_of_nonneg hvalue] at hzero
          rw [abs_signed_sub_of_ne hs (magnitude_nonneg _) hvalue, abs_signed_sub] at htie
          have hnone : magnitude rank = 0 :=
            le_antisymm (by linarith) (magnitude_nonneg rank)
          rw [hnone, signed_zero, signed_zero]
      rw [hsign] at hne htie
      rw [abs_signed_sub, abs_signed_sub] at htie
      rw [hlast]
      exact nearestRank_mod_two_of_abs_eq num hden (fun heq => hne (congrArg _ heq)) htie
  · unfold ofQuotient at hfinite
    rw [dif_neg hrank] at hfinite
    exact nomatch hfinite

end Binary64

end FluidClamp
