/-
  FluidClamp.Proofs.Number.Decimals
  ─────────────────────────────────
  **A DECIMAL IS READ AS THE NEAREST NUMBER.**

  Whatever its exponent, a decimal is rounded like a quotient of its value
  (`ofDecimal_eq_ofQuotient`): beyond the two cuts rounding gives infinity and zero.
  And a value is rounded to a finite number exactly below `overflow`,

      2^1024 − 2^971      the largest number, whose last bit is one
      2^1024 − 2^970      halfway, where the even of the two is taken: `overflow`
      2^1024              the magnitude after it, which is none

  so reading says of every decimal whether there is a nearest number and which one
  it is (`ofDecimal_eq_iff`): two numbers of one sign are never both nearest.
-/
import FluidClamp.Proofs.Number.Closest

namespace FluidClamp.Binary64

/-! ## §1. Where numbers end. -/

/-- **From here on values are rounded to infinity**: half a unit beyond the largest
number. -/
def overflow : Rat := 2 ^ 1024 - 2 ^ 970

theorem cast_largest_significand : ((2 * binade - 1 : Nat) : Rat) = 2 ^ 53 - 1 := by
  have hvalue : 2 * binade - 1 = 9007199254740991 := by decide
  rw [hvalue]
  norm_num

/-- The magnitudes on both sides of it. -/
theorem exists_half :
    ∃ half : Rat, 0 < half ∧ magnitude largest = overflow - half ∧
      magnitude rankCount = overflow + half := by
  have hone := cast_stepsPerOne
  have hunit : (2 : Rat) ^ 971 = 2 ^ 970 * 2 := pow_succ 2 970
  have htop : (2 : Rat) ^ 1024 = 2 ^ 53 * 2 ^ 971 := pow_add 2 53 971
  refine ⟨2 ^ 970, pow_pos two_pos _, ?_, ?_⟩
  · -- the last binade counts in units of 2^971, and the largest significand is one short of it
    have hrank : largest = 2045 * binade + (2 * binade - 1) := by decide
    have hbinade : ∀ shift, steps (shift * binade + (2 * binade - 1)) =
        (2 * binade - 1) * Nat.pow 2 shift := fun shift =>
      steps_mul_add (by omega) (.inr (by decide))
    have hsteps := hbinade 2045
    rw [← hrank] at hsteps
    have hpow : (2 : Rat) ^ 2045 = 2 ^ 971 * 2 ^ 1074 := pow_add 2 971 1074
    have hmagnitude : magnitude largest = (2 ^ 53 - 1) * 2 ^ 971 := by
      apply magnitude_of_steps_eq_mul hsteps
      rw [hone, hpow, cast_largest_significand, mul_assoc]
    unfold overflow
    rw [hmagnitude, htop, hunit]
    generalize (2 : Rat) ^ 970 = unit
    ring
  · -- the rank behind it would open another binade
    have hrank : rankCount = 2046 * binade + binade := by decide
    have hexp : 52 + 2046 = 1024 + 1074 := rfl
    have hsteps := steps_binade 2046
    rw [← hrank, hexp] at hsteps
    have hmagnitude := magnitude_of_steps_eq hsteps
    unfold overflow
    rw [hmagnitude, sub_add_cancel]

theorem magnitude_largest_lt_overflow : magnitude largest < overflow := by
  obtain ⟨half, hpos, hlow, -⟩ := exists_half
  linarith

theorem isNegative_ofQuotient (negative : Bool) (num den : Nat) :
    (ofQuotient negative num den).isNegative = negative := by
  unfold ofQuotient
  dsimp only
  split <;> rfl

/-- Zero with a sign. -/
def signedZero (negative : Bool) : Binary64 := .finite negative ⟨0, rankCount_pos⟩

section

variable (num : Nat) {den : Nat}

/-- **A quotient is rounded to a number** exactly below half a unit beyond the largest
one. -/
theorem nearestRank_lt_rankCount_iff (hden : 0 < den) :
    nearestRank (num * stepsPerOne) den < rankCount ↔ (num : Rat) / den < overflow := by
  obtain ⟨half, hpos, hlow, hhigh⟩ := exists_half
  constructor
  · intro hrank
    by_contra hlarge
    -- beyond `overflow` the magnitude after the largest one is at least as near
    rw [not_lt] at hlarge
    have hle : magnitude (nearestRank (num * stepsPerOne) den) ≤ magnitude largest :=
      magnitude_strictMono.monotone (Nat.le_sub_one_of_lt hrank)
    have hbelow : (num : Rat) / den < magnitude rankCount := by
      by_contra habove
      have hround := le_nearestRank hden ((magnitude_le_div_iff hden).1 (not_lt.1 habove))
      omega
    have hnear := abs_magnitude_nearestRank_sub_le num hden rankCount
    rw [abs_of_nonpos (by linarith), abs_of_nonneg (by linarith)] at hnear
    -- so it is exactly halfway and rounded to the largest number, which is odd
    have hlargest : magnitude (nearestRank (num * stepsPerOne) den) = magnitude largest := by
      linarith
    have hne : magnitude rankCount ≠ magnitude (nearestRank (num * stepsPerOne) den) := by
      rw [hlargest]
      linarith
    have htie : |magnitude rankCount - num / den| =
        |magnitude (nearestRank (num * stepsPerOne) den) - num / den| := by
      rw [abs_of_nonneg (by linarith), abs_of_nonpos (by linarith)]
      linarith
    have heven := nearestRank_mod_two_of_abs_eq num hden hne htie
    rw [magnitude_strictMono.injective hlargest] at heven
    exact absurd heven (by decide)
  · intro hsmall
    by_contra hrank
    have hge : magnitude rankCount ≤ magnitude (nearestRank (num * stepsPerOne) den) :=
      magnitude_strictMono.monotone (not_lt.1 hrank)
    have hnear := abs_magnitude_nearestRank_sub_le num hden largest
    rw [abs_of_nonneg (by linarith)] at hnear
    -- the largest number is nearer, on whichever side of it the quotient is
    have hlt : |magnitude largest - num / den| < magnitude rankCount - num / den :=
      abs_lt.2 ⟨by linarith, by linarith⟩
    linarith

theorem isFinite_ofQuotient_iff (negative : Bool) (hden : 0 < den) :
    (ofQuotient negative num den).isFinite = true ↔ (num : Rat) / den < overflow := by
  rw [← nearestRank_lt_rankCount_iff num hden]
  unfold ofQuotient
  dsimp only
  split
  · next hrank => exact ⟨fun _ => hrank, fun _ => rfl⟩
  · next hrank => exact ⟨fun hfinite => (nomatch hfinite), fun hlt => absurd hlt hrank⟩

theorem ofQuotient_eq_infinite (negative : Bool) (hden : 0 < den)
    (h : overflow ≤ (num : Rat) / den) : ofQuotient negative num den = .infinite negative := by
  unfold ofQuotient
  exact dif_neg fun hrank => not_lt.2 h ((nearestRank_lt_rankCount_iff num hden).1 hrank)

theorem ofQuotient_zero (negative : Bool) (hden : 0 < den) :
    ofQuotient negative 0 den = signedZero negative := by
  apply ofQuotient_eq_finite negative hden
  rw [Nat.cast_zero, zero_div, magnitude_zero]

/-- Less than half a step is rounded to zero. -/
theorem ofQuotient_of_lt_half (negative : Bool)
    (h : 2 * (num * stepsPerOne) < den) :
    ofQuotient negative num den = signedZero negative := by
  have hlt : num * stepsPerOne < den := by omega
  have hshift : shiftOf (num * stepsPerOne) den = 0 := by
    unfold shiftOf
    rw [Nat.div_eq_of_lt hlt]
    rfl
  have hrank : nearestRank (num * stepsPerOne) den = 0 := by
    have hsignificand : significandOf (num * stepsPerOne) den = 0 := by
      unfold significandOf roundDiv
      rw [hshift, Nat.pow_eq, Nat.pow_zero, Nat.mul_one, Nat.mod_eq_of_lt hlt, if_pos h,
        Nat.div_eq_of_lt hlt]
    rw [nearestRank_eq, hshift, hsignificand, Nat.zero_mul]
  unfold ofQuotient
  simp only [hrank]
  exact dif_pos rankCount_pos

end

/-! ## §2. Decimals as quotients. -/

end FluidClamp.Binary64

namespace FluidClamp.Decimal

/-- The numerator of a decimal over a power of ten. -/
def numerator (d : Decimal) : Nat := d.coefficient * Nat.pow 10 d.exponent.toNat

def denominator (d : Decimal) : Nat := Nat.pow 10 (-d.exponent).toNat

theorem denominator_pos (d : Decimal) : 0 < d.denominator := Nat.pow_pos (by omega)

theorem toRat_eq_div (d : Decimal) : d.toRat = d.numerator / d.denominator := by
  have hten : (10 : Rat) ≠ 0 := by norm_num
  have hpow : (10 : Rat) ^ d.exponent =
      10 ^ d.exponent.toNat / 10 ^ (-d.exponent).toNat := by
    rw [← zpow_natCast, ← zpow_natCast, ← zpow_sub₀ hten]
    congr 1
    omega
  have hcast : ∀ k : Nat, ((Nat.pow 10 k : Nat) : Rat) = 10 ^ k := fun k => Nat.cast_pow 10 k
  unfold toRat numerator denominator
  rw [Nat.cast_mul, hcast, hcast, hpow, mul_div_assoc]

theorem toRat_nonneg (d : Decimal) : 0 ≤ d.toRat := by
  rw [toRat_eq_div]
  exact div_nonneg (Nat.cast_nonneg _) (Nat.cast_nonneg _)

@[simp] theorem numerator_places (coefficient places : Nat) :
    numerator ⟨coefficient, -(places : Int)⟩ = coefficient := by
  have hzero : (-(places : Int)).toNat = 0 := Int.toNat_of_nonpos (by omega)
  unfold numerator
  dsimp only
  rw [hzero]
  exact Nat.mul_one coefficient

@[simp] theorem denominator_places (coefficient places : Nat) :
    denominator ⟨coefficient, -(places : Int)⟩ = Nat.pow 10 places := by
  unfold denominator
  rw [Int.neg_neg, Int.toNat_natCast]

/-- A number is below the power of ten with as many zeros as it has digits. -/
theorem lt_ten_pow_digitCount {n : Nat} (h : n ≠ 0) : n < 10 ^ digitCount n := by
  unfold digitCount
  rw [if_neg h]
  exact (Nat.length_toDigits_le_iff (by omega) Nat.length_toDigits_pos).1 (Nat.le_refl _)

end FluidClamp.Decimal

namespace FluidClamp.Binary64

/-- The cut for large decimals is beyond all numbers. -/
theorem overflow_le_ten_pow : overflow ≤ 10 ^ decimalRange := by
  have hle : (2 : Nat) ^ 1024 ≤ 10 ^ 400 := by decide +kernel
  have hcast : (2 : Rat) ^ 1024 ≤ 10 ^ 400 := by exact_mod_cast hle
  have hpos : (0 : Rat) < 2 ^ 970 := pow_pos two_pos _
  exact (sub_le_self _ hpos.le).trans hcast

end FluidClamp.Binary64

namespace FluidClamp.Decimal

variable {d : Decimal}

theorem ten_pow_le_toRat (hne : d.coefficient ≠ 0)
    (h : (Binary64.decimalRange : Int) ≤ d.exponent) :
    (10 : Rat) ^ Binary64.decimalRange ≤ d.toRat := by
  have hone : (1 : Rat) ≤ d.coefficient := by exact_mod_cast Nat.one_le_iff_ne_zero.2 hne
  have hpow : (10 : Rat) ^ Binary64.decimalRange ≤ (10 : Rat) ^ d.exponent := by
    rw [← zpow_natCast]
    exact zpow_le_zpow_right₀ (by norm_num) h
  calc (10 : Rat) ^ Binary64.decimalRange ≤ 1 * (10 : Rat) ^ d.exponent := by rwa [one_mul]
    _ ≤ d.coefficient * (10 : Rat) ^ d.exponent :=
        mul_le_mul_of_nonneg_right hone (zpow_nonneg (by norm_num) _)

/-- The cut for small decimals is far below half a step. -/
theorem two_mul_numerator_lt (hne : d.coefficient ≠ 0)
    (h : digitCount d.coefficient + d.exponent ≤ -(Binary64.decimalRange : Int)) :
    2 * (d.numerator * Binary64.stepsPerOne) < d.denominator := by
  have hcut : 2 * Binary64.stepsPerOne < 10 ^ Binary64.decimalRange := by decide +kernel
  have hdigits := lt_ten_pow_digitCount hne
  have hnum : d.numerator = d.coefficient := by
    have hzero : d.exponent.toNat = 0 := Int.toNat_of_nonpos (by omega)
    unfold numerator
    rw [hzero, Nat.pow_eq, Nat.pow_zero, Nat.mul_one]
  have hexp : digitCount d.coefficient + Binary64.decimalRange ≤ (-d.exponent).toNat := by omega
  calc 2 * (d.numerator * Binary64.stepsPerOne)
      = d.coefficient * (2 * Binary64.stepsPerOne) := by rw [hnum]; ring
    _ < 10 ^ digitCount d.coefficient * 10 ^ Binary64.decimalRange :=
        Nat.mul_lt_mul_of_lt_of_le hdigits hcut.le (by positivity)
    _ = 10 ^ (digitCount d.coefficient + Binary64.decimalRange) := (pow_add _ _ _).symm
    _ ≤ d.denominator := Nat.pow_le_pow_right (by omega) hexp

end FluidClamp.Decimal

namespace FluidClamp.Binary64

/-- **A decimal is rounded like a quotient** of its value. -/
theorem ofDecimal_eq_ofQuotient (negative : Bool) (d : Decimal) :
    ofDecimal negative d = ofQuotient negative d.numerator d.denominator := by
  have hden := d.denominator_pos
  unfold ofDecimal
  split
  · -- zero
    next hzero =>
    have hnum : d.numerator = 0 := by
      unfold Decimal.numerator
      rw [hzero, Nat.zero_mul]
    rw [hnum, ofQuotient_zero negative hden, ofQuotient_zero negative Nat.one_pos]
  · -- the cuts are made where rounding is known without computing the power of ten
    next hne =>
    split
    · -- beyond all numbers
      next hlarge =>
      refine (ofQuotient_eq_infinite _ negative hden ?_).symm
      rw [← Decimal.toRat_eq_div]
      exact overflow_le_ten_pow.trans (Decimal.ten_pow_le_toRat hne hlarge)
    · split
      · -- far below half a step
        next hsmall =>
        rw [ofQuotient_zero negative Nat.one_pos,
          ofQuotient_of_lt_half _ negative (Decimal.two_mul_numerator_lt hne hsmall)]
      · -- between the cuts one of the two powers of ten is one
        have hone : Nat.pow 10 0 = 1 := rfl
        unfold Decimal.numerator Decimal.denominator
        split
        · next hneg => rw [Int.toNat_of_nonpos hneg.le, hone, Nat.mul_one]
        · next hneg =>
          have hzero : (-d.exponent).toNat = 0 := Int.toNat_of_nonpos (by omega)
          rw [hzero, hone]

/-! ## §3. The nearest number. -/

theorem isFinite_ofDecimal_iff (negative : Bool) (d : Decimal) :
    (ofDecimal negative d).isFinite = true ↔ d.toRat < overflow := by
  rw [ofDecimal_eq_ofQuotient, isFinite_ofQuotient_iff _ negative d.denominator_pos,
    ← Decimal.toRat_eq_div]

theorem isNegative_ofDecimal (negative : Bool) (d : Decimal) :
    (ofDecimal negative d).isNegative = negative := by
  rw [ofDecimal_eq_ofQuotient, isNegative_ofQuotient]

/-- A decimal that is not too large is rounded to the nearest number. -/
theorem isNearest_ofDecimal (negative : Bool) {d : Decimal} (h : d.toRat < overflow) :
    IsNearest (signed negative d.toRat) (ofDecimal negative d) := by
  have hfinite := (isFinite_ofDecimal_iff negative d).2 h
  rw [ofDecimal_eq_ofQuotient] at hfinite ⊢
  rw [Decimal.toRat_eq_div]
  exact isNearest_ofQuotient negative d.numerator d.denominator_pos hfinite

theorem signed_signed (negative : Bool) (q : Rat) : signed negative (signed negative q) = q := by
  unfold signed
  cases negative with
  | false => rfl
  | true => exact Rat.neg_neg q

theorem abs_signed_sub_right (negative : Bool) (p q : Rat) :
    |signed negative p - q| = |p - signed negative q| := by
  rw [← abs_signed_sub negative p, signed_signed]

/-- Nothing lies between two magnitudes that are equally near and nearest. -/
theorem IsNearest.le_succ {negative : Bool} {i j : Fin rankCount} {q : Rat}
    (hi : IsNearest q (.finite negative i))
    (htie : |magnitude i - signed negative q| = |magnitude j - signed negative q|) :
    j.val ≤ i + 1 := by
  by_contra hbetween
  have hrank : i.val + 1 < rankCount := by omega
  have hlow : magnitude i < magnitude (i + 1) := magnitude_strictMono (by omega)
  have hhigh : magnitude (i + 1) < magnitude j := magnitude_strictMono (by omega)
  obtain ⟨p, hp, hnearest⟩ := hi.nearest
  obtain rfl := Option.some.inj hp
  have hnear := hnearest (.finite negative ⟨i + 1, hrank⟩) _ rfl
  rw [finiteValue_eq_signed, finiteValue_eq_signed, abs_signed_sub_right,
    abs_signed_sub_right] at hnear
  -- halfway between the two, so the one between them is nearer
  rcases abs_eq_abs.1 htie with hsame | hopposite
  · linarith
  · rw [abs_of_neg (by linarith), le_abs] at hnear
    rcases hnear with hnear | hnear <;> linarith

/-- **Two numbers of one sign are never both nearest.** -/
theorem IsNearest.unique {q : Rat} {x y : Binary64} (hx : IsNearest q x) (hy : IsNearest q y)
    (hsign : x.isNegative = y.isNegative) : x = y := by
  obtain ⟨p, hp, hxnear⟩ := hx.nearest
  obtain ⟨r, hr, hynear⟩ := hy.nearest
  -- each is as near as the other
  have htie : |p - q| = |r - q| := le_antisymm (hxnear y r hr) (hynear x p hp)
  obtain ⟨negative, i, rfl, rfl⟩ := toRat?_eq_some_iff.1 hp
  obtain ⟨other, j, rfl, rfl⟩ := toRat?_eq_some_iff.1 hr
  obtain rfl : negative = other := hsign
  have hranks := htie
  rw [finiteValue_eq_signed, finiteValue_eq_signed, abs_signed_sub_right,
    abs_signed_sub_right] at hranks
  by_contra hne
  -- both last bits are zero, but the ranks are one apart
  have hvalue : finiteValue negative i ≠ finiteValue negative j := by
    intro hvalue
    apply hne
    rw [finiteValue_eq_signed, finiteValue_eq_signed] at hvalue
    have hmagnitude := congrArg (signed negative) hvalue
    rw [signed_signed, signed_signed] at hmagnitude
    rw [Fin.ext (magnitude_strictMono.injective hmagnitude)]
  have hi := hx.even_of_tie _ _ _ hp hr hvalue.symm htie.symm
  have hj := hy.even_of_tie _ _ _ hr hp hvalue htie
  rw [toWord_finite_mod_two] at hi hj
  have hle := hx.le_succ hranks
  have hge := hy.le_succ hranks.symm
  have hrank : i.val = j.val := by omega
  exact hvalue (congrArg _ hrank)

/-- **A decimal is read as a finite number** exactly if it is not too large, and then
as the nearest number of its sign. -/
theorem ofDecimal_eq_iff (negative : Bool) (d : Decimal) (x : Binary64) :
    ofDecimal negative d = x ∧ x.isFinite = true ↔
      d.toRat < overflow ∧ IsNearest (signed negative d.toRat) x ∧ x.isNegative = negative := by
  constructor
  · rintro ⟨rfl, hfinite⟩
    have hsmall := (isFinite_ofDecimal_iff negative d).1 hfinite
    exact ⟨hsmall, isNearest_ofDecimal negative hsmall, isNegative_ofDecimal negative d⟩
  · rintro ⟨hsmall, hnearest, hsign⟩
    have hsigns := (isNegative_ofDecimal negative d).trans hsign.symm
    obtain rfl := (isNearest_ofDecimal negative hsmall).unique hnearest hsigns
    exact ⟨rfl, (isFinite_ofDecimal_iff negative d).2 hsmall⟩

end FluidClamp.Binary64
