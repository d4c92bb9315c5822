/-
  FluidClamp.Proofs.Number.Range
  ──────────────────────────────
  **OPERATIONS THAT STAY FINITE.**

  `Within k x` says that a number is finite and at most `2 ^ k` in magnitude, and
  `Beyond k x` that it is finite and at least `2 ^ -k`.  Each operation is given
  its bound once, by the exact result alone, since a result below a power of two
  is rounded to one below it:

      x ± y    Within (k + 1)     from  Within k, Within k
      x · y    Within (j + k)     from  Within j, Within k
      x / y    Within (j + k)     from  Within j, Beyond k

  Rounding to decimal places needs no bound: it takes finite numbers to finite
  numbers, however large they are.
-/
import FluidClamp.Proofs.Number.Decimals
import FluidClamp.Proofs.Number.Places
import Mathlib.Data.Nat.Cast.Order.Field

namespace FluidClamp.Binary64

/-! ## §1. Bounds. -/

/-- Finite, and at most `2 ^ k` in magnitude. -/
def Within (k : Nat) (x : Binary64) : Prop := ∃ q, x.toRat? = some q ∧ |q| ≤ 2 ^ k

/-- Finite, and at least `2 ^ -k` in magnitude. -/
def Beyond (k : Nat) (x : Binary64) : Prop := ∃ q, x.toRat? = some q ∧ (2 ^ k)⁻¹ ≤ |q|

theorem isFinite_iff {x : Binary64} : x.isFinite = true ↔ ∃ q, x.toRat? = some q := by
  constructor
  · exact exists_toRat?_of_isFinite
  · rintro ⟨q, hq⟩
    obtain ⟨negative, rank, rfl, -⟩ := toRat?_eq_some_iff.1 hq
    rfl

theorem isFinite_of_abs_le {x : Binary64} {bound : Rat}
    (h : ∃ q, x.toRat? = some q ∧ |q| ≤ bound) : x.isFinite = true := by
  obtain ⟨q, hq, -⟩ := h
  exact isFinite_iff.2 ⟨q, hq⟩

theorem Within.isFinite {k : Nat} {x : Binary64} (h : Within k x) : x.isFinite = true :=
  isFinite_of_abs_le h

theorem Within.mono {j k : Nat} {x : Binary64} (h : Within j x) (hjk : j ≤ k) : Within k x := by
  obtain ⟨q, hq, hle⟩ := h
  exact ⟨q, hq, hle.trans (pow_le_pow_right₀ one_le_two hjk)⟩

theorem Beyond.mono {j k : Nat} {x : Binary64} (h : Beyond j x) (hjk : j ≤ k) : Beyond k x := by
  obtain ⟨q, hq, hle⟩ := h
  have hpow : (2 : Rat) ^ j ≤ 2 ^ k := pow_le_pow_right₀ one_le_two hjk
  exact ⟨q, hq, (inv_anti₀ (by positivity) hpow).trans hle⟩

theorem Beyond.ne_zero {k : Nat} {x : Binary64} (h : Beyond k x) : x.toRat? ≠ some 0 := by
  obtain ⟨q, hq, hle⟩ := h
  rw [hq]
  intro hzero
  rw [Option.some.inj hzero, abs_zero] at hle
  have hpos : (0 : Rat) < (2 ^ k)⁻¹ := by positivity
  linarith

theorem within_ofQuotient (negative : Bool) {num den k : Nat} (hden : 0 < den) (hk : k ≤ 1023)
    (h : (num : Rat) / den ≤ 2 ^ k) : Within k (ofQuotient negative num den) := by
  obtain ⟨high, hhigh, heq⟩ := exists_magnitude_eq_two_pow hk
  rw [← heq] at h
  obtain ⟨p, hp, hle⟩ := exists_toRat?_ofQuotient negative hden hhigh h
  exact ⟨p, hp, heq ▸ hle⟩

theorem within_ofRat (negativeZero : Bool) {q : Rat} {k : Nat} (hk : k ≤ 1023)
    (h : |q| ≤ 2 ^ k) : Within k (ofRat negativeZero q) := by
  rw [← natAbs_num_div_den q] at h
  exact within_ofQuotient _ q.den_pos hk h

/-- A whole number below the bound. -/
theorem within_ofNat {n k : Nat} (hk : k ≤ 1023) (h : n ≤ 2 ^ k) : Within k (ofNat n) := by
  apply within_ofQuotient false Nat.one_pos hk
  rw [Nat.cast_one, div_one]
  exact_mod_cast h

theorem beyond_ofNat {n k : Nat} (hk : k ≤ 1023) (h : n ≤ 2 ^ k) (hn : 0 < n) :
    Beyond 0 (ofNat n) := by
  obtain ⟨p, hp, -⟩ := within_ofNat hk h
  obtain ⟨low, hlow⟩ := exists_magnitude_eq_inv_two_pow (Nat.zero_le 1074)
  rw [pow_zero, inv_one] at hlow
  have hle : magnitude low ≤ (n : Rat) / (1 : Nat) := by
    rw [hlow, Nat.cast_one, div_one]
    exact_mod_cast hn
  refine ⟨p, hp, ?_⟩
  rw [pow_zero, inv_one, ← hlow]
  exact le_abs_of_toRat?_ofQuotient Nat.one_pos hle hp

/-! ## §2. Signs, and the smaller and larger of two. -/

theorem finiteValue_not (negative : Bool) (rank : Nat) :
    finiteValue (!negative) rank = -finiteValue negative rank := by
  rw [finiteValue_eq, finiteValue_eq]
  cases negative with
  | false => rw [Bool.not_false, if_pos rfl, if_neg Bool.false_ne_true]
  | true => rw [Bool.not_true, if_pos rfl, if_neg Bool.false_ne_true, Rat.neg_neg]

theorem toRat?_neg {x : Binary64} {q : Rat} (h : x.toRat? = some q) : (-x).toRat? = some (-q) := by
  obtain ⟨negative, rank, rfl, rfl⟩ := toRat?_eq_some_iff.1 h
  rw [← finiteValue_not]
  rfl

theorem Within.neg {k : Nat} {x : Binary64} (h : Within k x) : Within k (-x) := by
  obtain ⟨q, hq, hle⟩ := h
  have hsign : |(-q)| = |q| := abs_eq_abs.2 (.inr rfl)
  exact ⟨-q, toRat?_neg hq, hsign.trans_le hle⟩

theorem Within.abs {k : Nat} {x : Binary64} (h : Within k x) : Within k x.abs := by
  obtain ⟨q, hq, hle⟩ := h
  obtain ⟨negative, rank, rfl, rfl⟩ := toRat?_eq_some_iff.1 hq
  refine ⟨finiteValue false rank, rfl, ?_⟩
  rw [abs_finiteValue] at hle ⊢
  exact hle

theorem min_eq_or (x y : Binary64) : x.min y = x ∨ x.min y = y := by
  unfold min
  split
  · exact .inr rfl
  · split
    · exact .inl rfl
    · split
      · exact .inr rfl
      · exact .inl rfl

theorem max_eq_or (x y : Binary64) : x.max y = x ∨ x.max y = y := by
  unfold max
  split
  · exact .inr rfl
  · split
    · exact .inl rfl
    · split
      · exact .inr rfl
      · exact .inl rfl

/-! ## §3. Arithmetic. -/

theorem exists_add_eq_ofRat {x y : Binary64} {p q : Rat} (hx : x.toRat? = some p)
    (hy : y.toRat? = some q) : ∃ negativeZero, x + y = ofRat negativeZero (p + q) := by
  obtain ⟨s, i, rfl, rfl⟩ := toRat?_eq_some_iff.1 hx
  obtain ⟨t, j, rfl, rfl⟩ := toRat?_eq_some_iff.1 hy
  refine ⟨s && t, ?_⟩
  show add (finite s i) (finite t j) = _
  rw [add]

theorem exists_sub_eq_ofRat {x y : Binary64} {p q : Rat} (hx : x.toRat? = some p)
    (hy : y.toRat? = some q) : ∃ negativeZero, x - y = ofRat negativeZero (p - q) := by
  rw [sub_eq_add_neg, Rat.sub_eq_add_neg]
  exact exists_add_eq_ofRat hx (toRat?_neg hy)

theorem exists_mul_eq_ofRat {x y : Binary64} {p q : Rat} (hx : x.toRat? = some p)
    (hy : y.toRat? = some q) : ∃ negativeZero, x * y = ofRat negativeZero (p * q) := by
  obtain ⟨s, i, rfl, rfl⟩ := toRat?_eq_some_iff.1 hx
  obtain ⟨t, j, rfl, rfl⟩ := toRat?_eq_some_iff.1 hy
  refine ⟨s != t, ?_⟩
  show mul (finite s i) (finite t j) = _
  rw [mul]

theorem exists_div_eq_ofRat {x y : Binary64} {p q : Rat} (hx : x.toRat? = some p)
    (hy : y.toRat? = some q) (hq : q ≠ 0) :
    ∃ negativeZero, x / y = ofRat negativeZero (p / q) := by
  obtain ⟨s, i, rfl, rfl⟩ := toRat?_eq_some_iff.1 hx
  obtain ⟨t, j, rfl, rfl⟩ := toRat?_eq_some_iff.1 hy
  have hj : j.val ≠ 0 := by
    intro hzero
    apply hq
    rw [finiteValue_eq, hzero, magnitude_zero, neg_zero, ite_self]
  refine ⟨s != t, ?_⟩
  show div (finite s i) (finite t j) = _
  rw [div, if_neg hj]

theorem Within.add {k : Nat} {x y : Binary64} (hx : Within k x) (hy : Within k y)
    (hk : k + 1 ≤ 1023) : Within (k + 1) (x + y) := by
  obtain ⟨p, hp, hple⟩ := hx
  obtain ⟨q, hq, hqle⟩ := hy
  obtain ⟨negativeZero, heq⟩ := exists_add_eq_ofRat hp hq
  rw [heq]
  apply within_ofRat _ hk
  calc |p + q| ≤ |p| + |q| := abs_add_le p q
    _ ≤ 2 ^ k + 2 ^ k := add_le_add hple hqle
    _ = 2 ^ (k + 1) := by ring

theorem Within.sub {k : Nat} {x y : Binary64} (hx : Within k x) (hy : Within k y)
    (hk : k + 1 ≤ 1023) : Within (k + 1) (x - y) :=
  hx.add hy.neg hk

theorem Within.mul {j k : Nat} {x y : Binary64} (hx : Within j x) (hy : Within k y)
    (hk : j + k ≤ 1023) : Within (j + k) (x * y) := by
  obtain ⟨p, hp, hple⟩ := hx
  obtain ⟨q, hq, hqle⟩ := hy
  obtain ⟨negativeZero, heq⟩ := exists_mul_eq_ofRat hp hq
  rw [heq]
  apply within_ofRat _ hk
  calc |p * q| = |p| * |q| := abs_mul p q
    _ ≤ 2 ^ j * 2 ^ k := mul_le_mul hple hqle (abs_nonneg q) (by positivity)
    _ = 2 ^ (j + k) := (pow_add 2 j k).symm

theorem Within.div {j k : Nat} {x y : Binary64} (hx : Within j x) (hy : Beyond k y)
    (hk : j + k ≤ 1023) : Within (j + k) (x / y) := by
  obtain ⟨p, hp, hple⟩ := hx
  obtain ⟨q, hq, hqle⟩ := hy
  have hpow : (0 : Rat) < 2 ^ k := by positivity
  -- the divisor is not zero, and its inverse is bounded
  have habs : 0 < |q| := (inv_pos.2 hpow).trans_le hqle
  obtain ⟨negativeZero, heq⟩ := exists_div_eq_ofRat hp hq (abs_pos.1 habs)
  have hinv : |q|⁻¹ ≤ 2 ^ k := by
    rw [inv_le_comm₀ habs hpow]
    exact hqle
  rw [heq]
  apply within_ofRat _ hk
  calc |p / q| = |p| * |q|⁻¹ := by rw [abs_div, div_eq_mul_inv]
    _ ≤ 2 ^ j * 2 ^ k := mul_le_mul hple hinv (inv_nonneg.2 (abs_nonneg q)) (by positivity)
    _ = 2 ^ (j + k) := (pow_add 2 j k).symm

theorem Within.trunc {k : Nat} {x : Binary64} (h : Within k x) (hk : k ≤ 1023) :
    Within k x.trunc := by
  obtain ⟨q, hq, hle⟩ := h
  obtain ⟨negative, rank, rfl, rfl⟩ := toRat?_eq_some_iff.1 hq
  rw [abs_finiteValue] at hle
  apply within_ofQuotient negative Nat.one_pos hk
  rw [Nat.cast_one, div_one]
  refine le_trans ?_ hle
  rw [magnitude_eq_div]
  exact Nat.cast_div_le

/-! ## §4. When a difference is zero. -/

/-- A finite number is a whole number of steps. -/
theorem exists_eq_div_stepsPerOne {x : Binary64} {q : Rat} (h : x.toRat? = some q) :
    ∃ n : Int, q = n / (stepsPerOne : Nat) := by
  obtain ⟨negative, rank, -, rfl⟩ := toRat?_eq_some_iff.1 h
  rw [finiteValue_eq, magnitude_eq_div]
  cases negative with
  | false => exact ⟨steps rank, if_neg Bool.false_ne_true⟩
  | true =>
    refine ⟨-(steps rank : Int), ?_⟩
    rw [if_pos rfl, Int.cast_neg, Int.cast_natCast, neg_div]

/-- So different ones are at least a step apart. -/
theorem magnitude_one_le_abs_sub {x y : Binary64} {p q : Rat} (hx : x.toRat? = some p)
    (hy : y.toRat? = some q) (hne : p ≠ q) : magnitude 1 ≤ |p - q| := by
  obtain ⟨m, rfl⟩ := exists_eq_div_stepsPerOne hx
  obtain ⟨n, rfl⟩ := exists_eq_div_stepsPerOne hy
  have hone : (0 : Rat) < (stepsPerOne : Nat) := Nat.cast_pos.2 stepsPerOne_pos
  have hmn : m - n ≠ 0 := by
    intro hzero
    apply hne
    rw [show m = n by omega]
  have hstep : steps 1 = 1 := by decide
  have habs : (1 : Rat) ≤ |((m - n : Int) : Rat)| := by
    rw [← Int.cast_abs]
    exact_mod_cast Int.one_le_abs hmn
  rw [magnitude_eq_div, hstep, ← sub_div, abs_div, abs_of_pos hone, ← Int.cast_sub,
    Nat.cast_one]
  exact div_le_div_of_nonneg_right habs hone.le

/-- What equals zero has the value zero. -/
theorem toRat?_of_equal_zero {x : Binary64} (h : x.equal (ofNat 0) = true) :
    x.toRat? = some 0 := by
  cases x with
  | nan => exact nomatch h
  | infinite negative =>
    rw [ofNat_zero] at h
    cases negative with
    | false => exact absurd h (by decide +kernel)
    | true => exact absurd h (by decide +kernel)
  | finite negative rank =>
    have hvalue : (finite negative rank).toRat? = some (finiteValue negative rank) := rfl
    rw [equal_iff hvalue toRat?_ofNat_zero] at h
    rw [hvalue, h]

theorem exists_toRat?_of_add {x y : Binary64} {r : Rat} (h : (x + y).toRat? = some r) :
    ∃ p q, x.toRat? = some p ∧ y.toRat? = some q := by
  cases x with
  | nan => exact nomatch h
  | infinite s =>
    cases y with
    | nan => exact nomatch h
    | finite t j => exact nomatch h
    | infinite t =>
      -- the sum of two infinities is infinite or not a number
      change (if s = t then infinite s else nan).toRat? = some r at h
      split at h
      · exact nomatch h
      · exact nomatch h
  | finite s i =>
    cases y with
    | nan => exact nomatch h
    | infinite t => exact nomatch h
    | finite t j => exact ⟨_, _, rfl, rfl⟩

/-- **A difference is zero only between equal numbers**: the numbers next to zero
are as fine as any difference. -/
theorem toRat?_sub_eq_zero_iff {x y : Binary64} :
    (x - y).toRat? = some 0 ↔ ∃ p, x.toRat? = some p ∧ y.toRat? = some p := by
  constructor
  · intro h
    obtain ⟨p, q', hx, hneg⟩ := exists_toRat?_of_add (x := x) (y := -y) h
    have hy : y.toRat? = some (-q') := by
      have hback := toRat?_neg hneg
      rwa [show - -y = y from neg_neg y] at hback
    obtain ⟨negativeZero, heq⟩ := exists_sub_eq_ofRat hx hy
    refine ⟨p, hx, ?_⟩
    by_contra hne
    -- different numbers are a step apart, and a step is not rounded to zero
    have hpq : p ≠ -q' := by
      rintro rfl
      exact hne hy
    have hle := magnitude_one_le_abs_sub hx hy hpq
    rw [heq] at h
    have hzero := le_abs_of_toRat?_ofRat hle h
    have hpos : 0 < magnitude 1 := by
      rw [← magnitude_zero]
      exact magnitude_strictMono Nat.zero_lt_one
    rw [abs_zero] at hzero
    linarith
  · rintro ⟨p, hx, hy⟩
    obtain ⟨negativeZero, heq⟩ := exists_sub_eq_ofRat hx hy
    have hle : |p - p| ≤ magnitude 0 := by rw [sub_self, abs_zero, magnitude_zero]
    obtain ⟨r, hr, hrle⟩ := exists_toRat?_ofRat negativeZero (by decide : 0 < rankCount) hle
    rw [magnitude_zero] at hrle
    rw [heq, hr, abs_nonpos_iff.1 hrle]

theorem toRat?_sub_ne_zero {x y : Binary64} (h : x.equal y = false) : (x - y).toRat? ≠ some 0 := by
  rw [Ne, toRat?_sub_eq_zero_iff]
  rintro ⟨p, hx, hy⟩
  have hequal := (equal_iff hx hy).2 rfl
  exact absurd (h.symm.trans hequal) Bool.false_ne_true

/-- A difference is at least as large as the exact one, down to one step. -/
theorem beyond_sub {j k : Nat} {x y : Binary64} {p q : Rat} (hx : x.toRat? = some p)
    (hy : y.toRat? = some q) (hp : |p| ≤ 2 ^ j) (hq : |q| ≤ 2 ^ j) (hj : j + 1 ≤ 1023)
    (hk : k ≤ 1074) (h : (2 ^ k)⁻¹ ≤ |p - q|) : Beyond k (x - y) := by
  obtain ⟨r, hr, -⟩ := Within.sub ⟨p, hx, hp⟩ ⟨q, hy, hq⟩ hj
  obtain ⟨negativeZero, heq⟩ := exists_sub_eq_ofRat hx hy
  obtain ⟨low, hlow⟩ := exists_magnitude_eq_inv_two_pow hk
  refine ⟨r, hr, ?_⟩
  rw [← hlow] at h ⊢
  rw [heq] at hr
  exact le_abs_of_toRat?_ofRat h hr

/-! ## §5. Rounding to decimal places. -/

/-- A decimal below a finite whole number is read as a finite number. -/
theorem isFinite_ofDecimal (negative : Bool) {coefficient places bound high : Nat}
    (hhigh : high < rankCount) (hbound : (bound : Rat) ≤ magnitude high)
    (h : coefficient ≤ bound * Nat.pow 10 places) :
    (ofDecimal negative ⟨coefficient, -(places : Int)⟩).isFinite = true := by
  have hten : (0 : Rat) < (Nat.pow 10 places : Nat) := Nat.cast_pos.2 (Nat.pow_pos (by omega))
  have hlargest : magnitude high ≤ magnitude largest :=
    magnitude_strictMono.monotone (Nat.le_sub_one_of_lt hhigh)
  rw [isFinite_ofDecimal_iff, Decimal.toRat_eq_div, Decimal.numerator_places,
    Decimal.denominator_places]
  refine lt_of_le_of_lt ?_ magnitude_largest_lt_overflow
  calc (coefficient : Rat) / (Nat.pow 10 places : Nat) ≤ bound := by
        rw [div_le_iff₀ hten, ← Nat.cast_mul]
        exact Nat.cast_le.2 h
    _ ≤ magnitude largest := hbound.trans hlargest

theorem exists_magnitude_largest_eq : ∃ n : Nat, magnitude largest = n :=
  exists_magnitude_eq_natCast (by decide)

/-- Writing a finite number with some places and reading it back is finite: the
largest number is whole, so nothing is rounded beyond it. -/
theorem isFinite_throughPlaces (places : Nat) (negative : Bool) {x : Binary64} {q : Rat}
    (h : x.toRat? = some q) : (throughPlaces places negative q).isFinite = true := by
  obtain ⟨bound, hbound⟩ := exists_magnitude_largest_eq
  have hle := abs_le_magnitude_largest h
  have hden : (0 : Rat) < q.den := Nat.cast_pos.2 q.den_pos
  have hnum : q.num.natAbs ≤ bound * q.den := by
    rw [hbound, ← natAbs_num_div_den q, div_le_iff₀ hden] at hle
    exact_mod_cast hle
  apply isFinite_ofDecimal negative largest_lt hbound.ge
  apply roundDiv_le_of_le_mul _ q.den_pos
  calc q.num.natAbs * Nat.pow 10 places
      ≤ bound * q.den * Nat.pow 10 places := Nat.mul_le_mul_right _ hnum
    _ = bound * Nat.pow 10 places * q.den := by ring

theorem isPlacesTie_intCast (places : Nat) (n : Int) : isPlacesTie places n = false := by
  have hscaled : (n : Rat) * 2 ^ (places + 1) = ((n * 2 ^ (places + 1) : Int) : Rat) := by
    push_cast
    rfl
  have heven : n * 2 ^ (places + 1) % 2 = 0 := by
    rw [pow_succ, ← mul_assoc]
    exact Int.mul_emod_left _ 2
  unfold isPlacesTie
  rw [hscaled]
  simp only [Rat.num_intCast, heven]
  simp

/-- A number between two multiples of a power of ten is small, since the large
ones are whole. -/
theorem within_of_isPlacesTie {places : Nat} {x : Binary64} {q : Rat} (h : x.toRat? = some q)
    (htie : isPlacesTie places q = true) : Within 52 x := by
  obtain ⟨negative, rank, rfl, rfl⟩ := toRat?_eq_some_iff.1 h
  refine ⟨_, h, ?_⟩
  rw [abs_finiteValue, ← magnitude_firstWhole, magnitude_strictMono.le_iff_le]
  -- a whole number, times a power of two, is even
  by_contra hlarge
  obtain ⟨n, hn⟩ := exists_magnitude_eq_natCast (Nat.le_of_not_le hlarge)
  obtain ⟨m, hm⟩ : ∃ m : Int, finiteValue negative rank = m := by
    rw [finiteValue_eq, hn]
    cases negative with
    | false => exact ⟨n, if_neg Bool.false_ne_true⟩
    | true =>
      refine ⟨-(n : Int), ?_⟩
      rw [if_pos rfl, Int.cast_neg, Int.cast_natCast]
  rw [hm, isPlacesTie_intCast] at htie
  exact nomatch htie

/-- How many places are enough for any length; more would be too fine for the
power of ten to be exact. -/
def placesRange : Nat := 200

theorem ten_pow_le (places : Nat) : Nat.pow 10 places ≤ 2 ^ (4 * places) := by
  rw [pow_mul]
  exact Nat.pow_le_pow_left (by decide) places

/-- **Rounding to decimal places keeps numbers finite**, and keeps what is not. -/
theorem isFinite_toPlaces {places : Nat} (hplaces : places ≤ placesRange) (x : Binary64) :
    (toPlaces places x).isFinite = x.isFinite := by
  unfold placesRange at hplaces
  unfold toPlaces
  split
  · rfl
  · next q hq =>
    rw [isFinite_iff.2 ⟨q, hq⟩]
    split
    · next htie =>
      -- a half is moved by binary64 arithmetic, on numbers far from the largest
      have hten : 0 < Nat.pow 10 places := Nat.pow_pos (by omega)
      have hfactor : Within (4 * places) (ofNat (Nat.pow 10 places)) :=
        within_ofNat (by omega) (ten_pow_le places)
      have hone : Beyond 0 (ofNat (Nat.pow 10 places)) :=
        beyond_ofNat (by omega) (ten_pow_le places) hten
      have hscaled := ((within_of_isPlacesTie hq htie).abs.mul hfactor (by omega)).trunc (by omega)
      have hunit : Within (52 + 4 * places) (ofNat 1) :=
        within_ofNat (by omega) Nat.one_le_two_pow
      have hbeyond := hscaled.add hunit (by omega)
      have hmoved : ∀ negative : Bool, Within (52 + 4 * places + 1 + 0)
          ((if negative then -((x.abs * ofNat (Nat.pow 10 places)).trunc + ofNat 1)
            else (x.abs * ofNat (Nat.pow 10 places)).trunc + ofNat 1) /
              ofNat (Nat.pow 10 places)) := by
        intro negative
        cases negative with
        | false => exact hbeyond.div hone (by omega)
        | true => exact hbeyond.neg.div hone (by omega)
      obtain ⟨m, hm, -⟩ := hmoved x.isNegative
      simp only [hm]
      exact isFinite_throughPlaces places x.isNegative hm
    · exact isFinite_throughPlaces places x.isNegative hq

end FluidClamp.Binary64
