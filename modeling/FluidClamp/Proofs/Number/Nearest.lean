/-
  FluidClamp.Proofs.Number.Nearest
  ────────────────────────────────
  **ROUNDING STAYS BETWEEN THE MAGNITUDES AROUND A VALUE.**

  `nearestRank` finds a rank from the leading bits of a quotient.  Whatever it
  finds, a magnitude above the quotient is above the rounded one, and a magnitude
  below it is below:

      num / den ≤ steps r   →   nearestRank num den ≤ r
      steps r ≤ num / den   →   r ≤ nearestRank num den

  So a value between two finite magnitudes rounds to a finite number between
  them.  Powers of two are magnitudes, and bounds by them are what the arithmetic
  of later modules hands on from one operation to the next.
-/
import FluidClamp.Proofs.Number.Order

namespace FluidClamp

/-! ## §1. Rounding a quotient. -/

theorem roundDiv_le_of_le_mul (tie : TieRule) {num den bound : Nat} (hden : 0 < den)
    (h : num ≤ bound * den) : roundDiv tie num den ≤ bound := by
  rcases Nat.eq_or_lt_of_le h with rfl | hlt
  · exact (roundDiv_mul_right tie bound den hden).le
  · have hdiv : num / den < bound := (Nat.div_lt_iff_lt_mul hden).2 hlt
    have hround := roundDiv_le_div_add_one tie num den
    omega

theorem le_roundDiv_of_mul_le (tie : TieRule) {num den bound : Nat} (hden : 0 < den)
    (h : bound * den ≤ num) : bound ≤ roundDiv tie num den :=
  ((Nat.le_div_iff_mul_le hden).2 h).trans (div_le_roundDiv tie num den)

namespace Binary64

/-! ## §2. The magnitude of the nearest rank. -/

/-- A significand in a binade; the largest one opens the next binade. -/
theorem steps_mul_add {shift significand : Nat} (hle : significand ≤ 2 * binade)
    (hlow : shift = 0 ∨ binade ≤ significand) :
    steps (shift * binade + significand) = significand * Nat.pow 2 shift := by
  have hB := binade_pos
  have hsucc : (shift + 1) * binade = shift * binade + binade := Nat.succ_mul _ _
  rcases Nat.lt_or_ge significand binade with hsmall | hlarge
  · -- below the first binade the significand is the rank
    obtain rfl : shift = 0 := by omega
    have hdiv : (0 * binade + significand) / binade = 0 := by
      rw [Nat.zero_mul, Nat.zero_add]
      exact Nat.div_eq_of_lt hsmall
    unfold steps
    rw [hdiv]
    simp
  · rcases Nat.eq_or_lt_of_le hle with rfl | hlt
    · -- the carry: half the significand, in the doubled unit of the next binade
      have hdiv : (shift * binade + 2 * binade) / binade = shift + 2 := by
        rw [← Nat.add_mul, Nat.mul_div_cancel _ hB]
      have hunit : Nat.pow 2 (shift + 1) = 2 * Nat.pow 2 shift := Nat.pow_succ'
      have hrest : shift * binade + 2 * binade - (shift + 1) * binade = binade := by omega
      unfold steps
      rw [hdiv, Nat.add_succ_sub_one, hrest, hunit]
      ring
    · -- inside the binade the division finds its number
      have hdiv : (shift * binade + significand) / binade = shift + 1 := by
        rw [Nat.div_eq_iff hB]
        omega
      unfold steps
      rw [hdiv, Nat.add_sub_cancel, Nat.add_sub_cancel_left]

section

variable {num den : Nat}

/-- How far a quotient is from the binade whose unit is one step. -/
def shiftOf (num den : Nat) : Nat := (num / den).log2 - 52

/-- The significand that the quotient rounds to. -/
def significandOf (num den : Nat) : Nat :=
  roundDiv .toEven num (den * Nat.pow 2 (shiftOf num den))

theorem nearestRank_eq (num den : Nat) :
    nearestRank num den = shiftOf num den * binade + significandOf num den := rfl

theorem scaled_pos (hden : 0 < den) : 0 < den * Nat.pow 2 (shiftOf num den) :=
  Nat.mul_pos hden (two_pow_pos _)

theorem num_lt (hden : 0 < den) :
    num < 2 * binade * (den * Nat.pow 2 (shiftOf num den)) := by
  have hlog : num / den < Nat.pow 2 (53 + shiftOf num den) := by
    have hself : num / den < Nat.pow 2 ((num / den).log2 + 1) := Nat.lt_log2_self
    have hexp : (num / den).log2 + 1 ≤ 53 + shiftOf num den := by
      unfold shiftOf
      omega
    exact hself.trans_le (Nat.pow_le_pow_right Nat.two_pos hexp)
  have hpow : Nat.pow 2 (53 + shiftOf num den) = 2 * binade * Nat.pow 2 (shiftOf num den) :=
    Nat.pow_add 2 53 _
  rw [hpow, Nat.div_lt_iff_lt_mul hden] at hlog
  calc num < 2 * binade * Nat.pow 2 (shiftOf num den) * den := hlog
    _ = 2 * binade * (den * Nat.pow 2 (shiftOf num den)) := by ring

theorem le_num (hden : 0 < den) (hshift : shiftOf num den ≠ 0) :
    binade * (den * Nat.pow 2 (shiftOf num den)) ≤ num := by
  have hlog : Nat.pow 2 (52 + shiftOf num den) ≤ num / den := by
    have hne : num / den ≠ 0 := by
      intro hzero
      apply hshift
      unfold shiftOf
      rw [hzero]
      rfl
    have hexp : 52 + shiftOf num den = (num / den).log2 := by
      unfold shiftOf at hshift ⊢
      omega
    rw [hexp]
    exact Nat.log2_self_le hne
  have hpow : Nat.pow 2 (52 + shiftOf num den) = binade * Nat.pow 2 (shiftOf num den) :=
    Nat.pow_add 2 52 _
  rw [hpow, Nat.le_div_iff_mul_le hden] at hlog
  calc binade * (den * Nat.pow 2 (shiftOf num den))
      = binade * Nat.pow 2 (shiftOf num den) * den := by ring
    _ ≤ num := hlog

theorem significandOf_le (hden : 0 < den) : significandOf num den ≤ 2 * binade :=
  roundDiv_le_of_le_mul _ (scaled_pos hden) (num_lt hden).le

theorem le_significandOf (hden : 0 < den) :
    shiftOf num den = 0 ∨ binade ≤ significandOf num den := by
  by_cases hshift : shiftOf num den = 0
  · exact .inl hshift
  · exact .inr (le_roundDiv_of_mul_le _ (scaled_pos hden) (le_num hden hshift))

/-- **The magnitude of the nearest rank** is the rounded significand, in its unit. -/
theorem steps_nearestRank (hden : 0 < den) :
    steps (nearestRank num den) = significandOf num den * Nat.pow 2 (shiftOf num den) := by
  rw [nearestRank_eq, steps_mul_add (significandOf_le hden) (le_significandOf hden)]

/-! ## §3. Magnitudes around a quotient. -/

/-- A rank of a higher binade counts in whole units of a lower one. -/
theorem two_pow_dvd_steps {shift rank : Nat}
    (h : shift = 0 ∨ shift * binade + binade ≤ rank) : Nat.pow 2 shift ∣ steps rank := by
  have hdvd : shift ≤ rank / binade - 1 := by
    rcases h with rfl | hle
    · exact Nat.zero_le _
    · have hdiv : shift + 1 ≤ rank / binade := by
        rw [Nat.le_div_iff_mul_le binade_pos, Nat.succ_mul]
        exact hle
      omega
  exact (Nat.pow_dvd_pow 2 hdvd).mul_left _

/-- **A magnitude above the quotient** is above the rounded one. -/
theorem nearestRank_le {rank : Nat} (hden : 0 < den) (h : num ≤ steps rank * den) :
    nearestRank num den ≤ rank := by
  -- the magnitude is at least the first of the quotient's binade, for the quotient is
  have hbinade : shiftOf num den = 0 ∨ shiftOf num den * binade + binade ≤ rank := by
    by_cases hshift : shiftOf num den = 0
    · exact .inl hshift
    · right
      rw [← steps_strictMono.le_iff_le, steps_mul_add (by omega) (.inr (Nat.le_refl _))]
      have hle := (le_num hden hshift).trans h
      have hassoc : binade * (den * Nat.pow 2 (shiftOf num den)) =
          binade * Nat.pow 2 (shiftOf num den) * den := by ring
      rw [hassoc] at hle
      exact Nat.le_of_mul_le_mul_right hle hden
  -- so the magnitude is a whole number of the units that the quotient is rounded to
  obtain ⟨units, hunits⟩ := two_pow_dvd_steps hbinade
  have hround : significandOf num den ≤ units := by
    apply roundDiv_le_of_le_mul _ (scaled_pos hden)
    rw [hunits] at h
    calc num ≤ Nat.pow 2 (shiftOf num den) * units * den := h
      _ = units * (den * Nat.pow 2 (shiftOf num den)) := by ring
  rw [← steps_strictMono.le_iff_le, steps_nearestRank hden, hunits, Nat.mul_comm]
  exact Nat.mul_le_mul_left _ hround

/-- **A magnitude below the quotient** is below the rounded one. -/
theorem le_nearestRank {rank : Nat} (hden : 0 < den) (h : steps rank * den ≤ num) :
    rank ≤ nearestRank num den := by
  -- a rank beyond the binade of the quotient would be above the quotient
  have hrank : rank < shiftOf num den * binade + 2 * binade := by
    rw [← steps_strictMono.lt_iff_lt, steps_mul_add (Nat.le_refl _) (.inr (by omega))]
    have hlt := h.trans_lt (num_lt hden)
    have hassoc : 2 * binade * (den * Nat.pow 2 (shiftOf num den)) =
        2 * binade * Nat.pow 2 (shiftOf num den) * den := by ring
    rw [hassoc] at hlt
    exact Nat.lt_of_mul_lt_mul_right hlt
  have hsignificand : shiftOf num den = 0 ∨ binade ≤ significandOf num den :=
    le_significandOf hden
  rw [nearestRank_eq]
  by_cases hbelow : rank < shiftOf num den * binade
  · -- a rank before it is below whatever the quotient rounds to
    omega
  · obtain ⟨units, rfl⟩ := Nat.exists_eq_add_of_le (Nat.le_of_not_lt hbelow)
    by_cases hlow : shiftOf num den = 0 ∨ binade ≤ units
    · have hround : units ≤ significandOf num den := by
        apply le_roundDiv_of_mul_le _ (scaled_pos hden)
        rw [steps_mul_add (by omega) hlow] at h
        calc units * (den * Nat.pow 2 (shiftOf num den))
            = units * Nat.pow 2 (shiftOf num den) * den := by ring
          _ ≤ num := h
      omega
    · omega

end

/-! ## §4. Rounding a value. -/

theorem div_le_magnitude_iff {num den rank : Nat} (hden : 0 < den) :
    (num : Rat) / den ≤ magnitude rank ↔ num * stepsPerOne ≤ steps rank * den := by
  have hone : (0 : Rat) < (stepsPerOne : Nat) := Nat.cast_pos.2 stepsPerOne_pos
  have hden' : (0 : Rat) < den := Nat.cast_pos.2 hden
  rw [magnitude_eq_div, div_le_div_iff₀ hden' hone]
  exact_mod_cast Iff.rfl

theorem magnitude_le_div_iff {num den rank : Nat} (hden : 0 < den) :
    magnitude rank ≤ (num : Rat) / den ↔ steps rank * den ≤ num * stepsPerOne := by
  have hone : (0 : Rat) < (stepsPerOne : Nat) := Nat.cast_pos.2 stepsPerOne_pos
  have hden' : (0 : Rat) < den := Nat.cast_pos.2 hden
  rw [magnitude_eq_div, div_le_div_iff₀ hone hden']
  exact_mod_cast Iff.rfl

theorem abs_finiteValue (negative : Bool) (rank : Nat) :
    |finiteValue negative rank| = magnitude rank := by
  rw [finiteValue_eq, abs_eq (magnitude_nonneg rank)]
  cases negative with
  | false => exact .inl (if_neg Bool.false_ne_true)
  | true => exact .inr (if_pos rfl)

theorem toRat?_ofQuotient (negative : Bool) {num den : Nat}
    (h : nearestRank (num * stepsPerOne) den < rankCount) :
    (ofQuotient negative num den).toRat? =
      some (finiteValue negative (nearestRank (num * stepsPerOne) den)) := by
  unfold ofQuotient
  rw [dif_pos h]
  rfl

/-- **A quotient below a finite magnitude rounds to a finite number** below it. -/
theorem exists_toRat?_ofQuotient (negative : Bool) {num den high : Nat} (hden : 0 < den)
    (hhigh : high < rankCount) (h : (num : Rat) / den ≤ magnitude high) :
    ∃ p, (ofQuotient negative num den).toRat? = some p ∧ |p| ≤ magnitude high := by
  have hle := nearestRank_le hden ((div_le_magnitude_iff hden).1 h)
  have hfinite : nearestRank (num * stepsPerOne) den < rankCount := Nat.lt_of_le_of_lt hle hhigh
  refine ⟨_, toRat?_ofQuotient negative hfinite, ?_⟩
  rw [abs_finiteValue]
  exact magnitude_strictMono.monotone hle

/-- **A quotient above a magnitude** rounds to nothing below it. -/
theorem le_abs_of_toRat?_ofQuotient {negative : Bool} {num den low : Nat} {p : Rat}
    (hden : 0 < den) (h : magnitude low ≤ (num : Rat) / den)
    (hp : (ofQuotient negative num den).toRat? = some p) : magnitude low ≤ |p| := by
  have hle := le_nearestRank hden ((magnitude_le_div_iff hden).1 h)
  by_cases hfinite : nearestRank (num * stepsPerOne) den < rankCount
  · rw [toRat?_ofQuotient negative hfinite] at hp
    obtain rfl := Option.some.inj hp
    rw [abs_finiteValue]
    exact magnitude_strictMono.monotone hle
  · unfold ofQuotient at hp
    rw [dif_neg hfinite] at hp
    exact nomatch hp

theorem natAbs_num_div_den (q : Rat) : (q.num.natAbs : Rat) / q.den = |q| := by
  have habs : ((q.num.natAbs : Nat) : Rat) = |(q.num : Rat)| := by
    rw [← Int.cast_abs, Int.abs_eq_natAbs, Int.cast_natCast]
  have hden : (0 : Rat) < q.den := Nat.cast_pos.2 q.den_pos
  rw [habs, ← abs_of_pos hden, ← abs_div, Rat.num_div_den]

theorem exists_toRat?_ofRat (negativeZero : Bool) {q : Rat} {high : Nat}
    (hhigh : high < rankCount) (h : |q| ≤ magnitude high) :
    ∃ p, (ofRat negativeZero q).toRat? = some p ∧ |p| ≤ magnitude high := by
  rw [← natAbs_num_div_den q] at h
  exact exists_toRat?_ofQuotient _ q.den_pos hhigh h

theorem le_abs_of_toRat?_ofRat {negativeZero : Bool} {q p : Rat} {low : Nat}
    (h : magnitude low ≤ |q|) (hp : (ofRat negativeZero q).toRat? = some p) :
    magnitude low ≤ |p| := by
  rw [← natAbs_num_div_den q] at h
  exact le_abs_of_toRat?_ofQuotient q.den_pos h hp

/-! ## §5. Powers of two. -/

theorem cast_two_pow (k : Nat) : ((Nat.pow 2 k : Nat) : Rat) = 2 ^ k := Nat.cast_pow 2 k

theorem cast_stepsPerOne : ((stepsPerOne : Nat) : Rat) = 2 ^ 1074 := by
  unfold stepsPerOne
  generalize 1074 = k
  exact cast_two_pow k

/-- The rank that opens a binade. -/
theorem steps_binade (shift : Nat) :
    steps (shift * binade + binade) = Nat.pow 2 (52 + shift) := by
  have hbinade : binade = Nat.pow 2 52 := by decide
  have hle : binade ≤ 2 * binade := by omega
  rw [steps_mul_add hle (.inr (Nat.le_refl _))]
  nth_rewrite 1 [hbinade]
  exact (Nat.pow_add 2 52 shift).symm

/-- Every power of two is a number of steps. -/
theorem exists_steps_eq_two_pow (k : Nat) : ∃ rank, steps rank = Nat.pow 2 k := by
  rcases Nat.lt_or_ge k 52 with hsmall | hlarge
  · have hle : Nat.pow 2 k ≤ binade := Nat.pow_le_pow_right Nat.two_pos hsmall.le
    have hsteps := steps_mul_add (Nat.le_trans hle (by omega)) (.inl (Eq.refl 0))
    rw [Nat.zero_mul, Nat.zero_add] at hsteps
    exact ⟨Nat.pow 2 k, hsteps.trans (Nat.mul_one _)⟩
  · obtain ⟨shift, rfl⟩ := Nat.exists_eq_add_of_le hlarge
    exact ⟨shift * binade + binade, steps_binade shift⟩

theorem lt_of_steps_eq_two_pow {rank k shift : Nat} (hrank : steps rank = Nat.pow 2 k)
    (h : k < 52 + shift) : rank < shift * binade + binade := by
  rw [← steps_strictMono.lt_iff_lt, hrank, steps_binade]
  exact Nat.pow_lt_pow_right Nat.one_lt_two h

theorem magnitude_of_steps_eq {rank k : Nat} (h : steps rank = Nat.pow 2 (k + 1074)) :
    magnitude rank = 2 ^ k := by
  have hnum : ((Nat.pow 2 (k + 1074) : Nat) : Rat) = 2 ^ k * 2 ^ 1074 := by
    rw [← pow_add]
    exact cast_two_pow (k + 1074)
  rw [magnitude_eq_div, h, hnum, cast_stepsPerOne]
  exact mul_div_cancel_right₀ _ (pow_ne_zero _ two_ne_zero)

/-- **Powers of two up to the largest** are finite magnitudes. -/
theorem exists_magnitude_eq_two_pow {k : Nat} (h : k ≤ 1023) :
    ∃ rank < rankCount, magnitude rank = 2 ^ k := by
  obtain ⟨rank, hrank⟩ := exists_steps_eq_two_pow (k + 1074)
  have hcount : rankCount = 2046 * binade + binade := by decide
  refine ⟨rank, ?_, magnitude_of_steps_eq hrank⟩
  rw [hcount]
  exact lt_of_steps_eq_two_pow hrank (by omega)

/-- The largest finite magnitude. -/
def largest : Nat := rankCount - 1

theorem largest_lt : largest < rankCount := by decide

theorem abs_le_magnitude_largest {x : Binary64} {q : Rat} (h : x.toRat? = some q) :
    |q| ≤ magnitude largest := by
  obtain ⟨negative, rank, -, rfl⟩ := toRat?_eq_some_iff.1 h
  rw [abs_finiteValue]
  exact magnitude_strictMono.monotone (Nat.le_sub_one_of_lt rank.isLt)

/-- The rank of `2 ^ 52`. -/
def firstWhole : Nat := 1074 * binade + binade

theorem magnitude_firstWhole : magnitude firstWhole = 2 ^ 52 :=
  magnitude_of_steps_eq (steps_binade 1074)

/-- From there on, magnitudes are whole numbers. -/
theorem exists_magnitude_eq_natCast {rank : Nat} (h : firstWhole ≤ rank) :
    ∃ n : Nat, magnitude rank = n := by
  have hdvd : stepsPerOne ∣ steps rank := by
    unfold firstWhole at h
    unfold stepsPerOne
    generalize 1074 = k at h ⊢
    exact two_pow_dvd_steps (.inr h)
  have hone : ((stepsPerOne : Nat) : Rat) ≠ 0 := Nat.cast_ne_zero.2 stepsPerOne_pos.ne'
  obtain ⟨n, hn⟩ := hdvd
  refine ⟨n, ?_⟩
  rw [magnitude_eq_div, hn, Nat.cast_mul]
  exact mul_div_cancel_left₀ _ hone


/-- **Inverses of powers of two** are magnitudes down to one step. -/
theorem exists_magnitude_eq_inv_two_pow {k : Nat} (h : k ≤ 1074) :
    ∃ rank, magnitude rank = (2 ^ k)⁻¹ := by
  obtain ⟨rank, hrank⟩ := exists_steps_eq_two_pow (1074 - k)
  refine ⟨rank, ?_⟩
  have hone : ((stepsPerOne : Nat) : Rat) = 2 ^ (1074 - k) * 2 ^ k := by
    rw [← pow_add, Nat.sub_add_cancel h]
    exact cast_stepsPerOne
  have hnum : ((Nat.pow 2 (1074 - k) : Nat) : Rat) = 2 ^ (1074 - k) := cast_two_pow _
  have hne : (2 : Rat) ^ (1074 - k) ≠ 0 := pow_ne_zero _ two_ne_zero
  rw [magnitude_eq_div, hrank, hnum, hone, div_mul_eq_div_div, div_self hne,
    one_div]

end Binary64

end FluidClamp
