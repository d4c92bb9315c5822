/-
  FluidClamp.Proofs.Number.ToPlaces
  ─────────────────────────────────
  **ROUNDING TO DECIMAL PLACES IS RIGHT, BUT FOR LARGE HALVES.**

  A number is rounded to the nearest multiple of 10^−places, halves away from zero,
  and that multiple to the nearest number.  A value that is no half is written with
  its places directly.  A half is found exactly, by a power of two (`isPlacesTie_iff`),
  and is first moved beyond the multiple it should go to:

      |x| · 10^places      n + 1/2       exact below 2^52
      cut and one added    n + 1         exact
      over 10^places       nearest to    less than half a unit away, so that writing
                           (n + 1) / …   it gives n + 1 again

  From 2^52 on the product loses its half: it is rounded to n or to n + 1, whichever
  is even, before one is added (`toPlaces_isNearest`).
-/
import FluidClamp.Proofs.Number.Range
import Mathlib.RingTheory.Coprime.Lemmas

namespace FluidClamp

/-! ## §1. The nearest multiple. -/

/-- The value is halfway between two multiples of `10^−places`. -/
def IsHalfway (places : Nat) (q : Rat) : Prop := ∃ n : Int, q * 10 ^ places = n + 1 / 2

/-- **The multiple of `10^−places` nearest to a value**, or of two the one farther from
zero. -/
structure IsNearestMultiple (places : Nat) (q D : Rat) : Prop where
  multiple : ∃ n : Int, D = n / 10 ^ places
  nearest : ∀ n : Int, |D - q| ≤ |(n : Rat) / 10 ^ places - q|
  farther_of_tie : ∀ n : Int, |(n : Rat) / 10 ^ places - q| = |D - q| →
    |(n : Rat) / 10 ^ places| ≤ |D|

theorem cast_ten_pow (places : Nat) : ((Nat.pow 10 places : Nat) : Rat) = 10 ^ places :=
  Nat.cast_pow 10 places

theorem ten_pow_pos (places : Nat) : (0 : Rat) < 10 ^ places := pow_pos (by norm_num) places

/-- How often `10^−places` goes into a magnitude, rounded. -/
def countOf (places : Nat) (q : Rat) : Nat :=
  roundDiv .awayFromZero (q.num.natAbs * Nat.pow 10 places) q.den

theorem scaled_div_den (places : Nat) (q : Rat) :
    ((q.num.natAbs * Nat.pow 10 places : Nat) : Rat) / q.den = |q| * 10 ^ places := by
  rw [Nat.cast_mul, cast_ten_pow, mul_div_right_comm, Binary64.natAbs_num_div_den]

/-- Rounding up at a half leaves no whole number that is as near and larger. -/
theorem le_roundDiv_awayFromZero {num den : Nat} (hden : 0 < den) {n : Int}
    (h : |(n : Rat) - num / den| = |(roundDiv .awayFromZero num den : Rat) - num / den|) :
    n.natAbs ≤ roundDiv .awayFromZero num den := by
  by_cases hne : n = roundDiv .awayFromZero num den
  · rw [hne, Int.natAbs_natCast]
  · have hpos : (0 : Rat) < den := Nat.cast_pos.2 hden
    have hvalue : (0 : Rat) ≤ num / den := div_nonneg (Nat.cast_nonneg _) (Nat.cast_nonneg _)
    have htie := two_mul_mod_eq_of_abs_eq num .awayFromZero hden hne h
    have hhalf := (abs_roundDiv_sub_le_half num .awayFromZero hden).1
    -- the quotient is below the rounded one, so the other is below the quotient
    have hround : roundDiv .awayFromZero num den = num / den + 1 := by
      unfold roundDiv
      rw [if_neg (by omega), if_neg (by omega)]
      rfl
    have hbelow : (num : Rat) / den < roundDiv .awayFromZero num den := by
      have hlt : num < (num / den + 1) * den := by
        rw [Nat.mul_comm]
        exact Nat.lt_mul_div_succ num hden
      rw [hround, div_lt_iff₀ hpos]
      exact_mod_cast hlt
    have hle : n ≤ roundDiv .awayFromZero num den := by
      by_contra hlarge
      have hlt : (roundDiv .awayFromZero num den : Rat) < n := by exact_mod_cast not_le.1 hlarge
      rw [abs_of_pos (by linarith), abs_of_pos (by linarith)] at h
      linarith
    have hnonneg : 0 ≤ n := by
      by_contra hneg
      have hlow : (n : Rat) ≤ -1 := by exact_mod_cast (by omega : n ≤ -1)
      rw [← h, abs_of_neg (by linarith)] at hhalf
      linarith
    omega

theorem ratToPlaces_eq (places : Nat) (q : Rat) :
    ratToPlaces places q =
      Binary64.signed (decide (q < 0)) (countOf places q / 10 ^ places) := by
  unfold ratToPlaces Binary64.signed countOf
  dsimp only
  rw [Rat.mkRat_eq_div, Int.cast_natCast, cast_ten_pow]
  by_cases h : q < 0
  · rw [if_pos h, decide_eq_true h, if_pos rfl]
  · rw [if_neg h, decide_eq_false h, if_neg Bool.false_ne_true]

theorem eq_signed_abs (q : Rat) : q = Binary64.signed (decide (q < 0)) |q| := by
  unfold Binary64.signed
  by_cases h : q < 0
  · rw [decide_eq_true h, if_pos rfl, abs_of_neg h, Rat.neg_neg]
  · rw [decide_eq_false h, if_neg Bool.false_ne_true, abs_of_nonneg (not_lt.1 h)]

/-- Multiples are as far from a value as their opposites from its opposite. -/
theorem exists_abs_div_sub_eq (places : Nat) (q : Rat) (n : Int) :
    ∃ m : Int, m.natAbs = n.natAbs ∧
      |(n : Rat) / 10 ^ places - q| = |(m : Rat) - |q| * 10 ^ places| / 10 ^ places := by
  have hten := ten_pow_pos places
  have hscale : ∀ m : Rat,
      |(m / 10 ^ places - |q|)| = |m - |q| * 10 ^ places| / 10 ^ places := by
    intro m
    have hdiv : m / 10 ^ places - |q| = (m - |q| * 10 ^ places) / 10 ^ places := by
      field_simp
    rw [hdiv, abs_div, abs_of_pos hten]
  by_cases hneg : q < 0
  · refine ⟨-n, Int.natAbs_neg n, ?_⟩
    have hopposite : (n : Rat) / 10 ^ places - q = -(((-n : Int) : Rat) / 10 ^ places - |q|) := by
      rw [abs_of_neg hneg]
      push_cast
      ring
    rw [hopposite, abs_neg, hscale]
  · refine ⟨n, rfl, ?_⟩
    rw [← hscale, abs_of_nonneg (not_lt.1 hneg)]

/-- **`ratToPlaces` gives the nearest multiple.** -/
theorem isNearestMultiple_ratToPlaces (places : Nat) (q : Rat) :
    IsNearestMultiple places q (ratToPlaces places q) := by
  have hten := ten_pow_pos places
  have hdistance : |ratToPlaces places q - q| =
      |(countOf places q : Rat) - |q| * 10 ^ places| / 10 ^ places := by
    have hdiv : (countOf places q : Rat) / 10 ^ places - |q| =
        (countOf places q - |q| * 10 ^ places) / 10 ^ places := by
      field_simp
    nth_rewrite 2 [eq_signed_abs q]
    rw [ratToPlaces_eq, Binary64.abs_signed_sub, hdiv, abs_div, abs_of_pos hten]
  refine ⟨?_, ?_, ?_⟩
  · rw [ratToPlaces_eq]
    unfold Binary64.signed
    split
    · refine ⟨-(countOf places q : Int), ?_⟩
      push_cast
      ring
    · exact ⟨countOf places q, by rw [Int.cast_natCast]⟩
  · intro n
    obtain ⟨m, -, hm⟩ := exists_abs_div_sub_eq places q n
    rw [hdistance, hm, ← scaled_div_den]
    exact div_le_div_of_nonneg_right (abs_roundDiv_sub_le _ _ q.den_pos m) hten.le
  · intro n htie
    obtain ⟨m, habs, hm⟩ := exists_abs_div_sub_eq places q n
    rw [hdistance, hm, ← scaled_div_den] at htie
    have hle := le_roundDiv_awayFromZero q.den_pos ((div_left_inj' hten.ne').1 htie)
    rw [habs] at hle
    have hmagnitude : |ratToPlaces places q| = countOf places q / 10 ^ places := by
      have hzero := Binary64.abs_signed_sub (decide (q < 0)) (countOf places q / 10 ^ places) 0
      rw [Binary64.signed_zero, sub_zero, sub_zero] at hzero
      rw [ratToPlaces_eq, hzero, abs_of_nonneg (div_nonneg (Nat.cast_nonneg _) hten.le)]
    rw [hmagnitude, abs_div, abs_of_pos hten]
    refine div_le_div_of_nonneg_right ?_ hten.le
    rw [← Int.cast_abs, Int.abs_eq_natAbs, Int.cast_natCast]
    exact Nat.cast_le.2 hle

/-- There is only one. -/
theorem IsNearestMultiple.unique {places : Nat} {q D E : Rat} (hD : IsNearestMultiple places q D)
    (hE : IsNearestMultiple places q E) : D = E := by
  obtain ⟨m, hm⟩ := hD.multiple
  obtain ⟨n, hn⟩ := hE.multiple
  have hle := hD.nearest n
  have hge := hE.nearest m
  rw [← hn] at hle
  rw [← hm] at hge
  have hnear : |E - q| = |D - q| := le_antisymm hge hle
  have hED := hD.farther_of_tie n
  have hDE := hE.farther_of_tie m
  rw [← hn] at hED
  rw [← hm] at hDE
  have habs : |D| = |E| := le_antisymm (hDE hnear.symm) (hED hnear)
  rcases abs_eq_abs.1 habs with hsame | hopposite
  · exact hsame
  · -- two opposites are equally near to zero only, and zero is a multiple
    have hzero := hD.nearest 0
    rw [Int.cast_zero, zero_div, zero_sub, abs_neg] at hzero
    rcases abs_eq_abs.1 hnear with hequal | hequal
    · linarith
    · have hq : q = 0 := by linarith
      rw [hq, sub_zero, abs_zero, abs_nonpos_iff] at hzero
      linarith

/-! ## §2. Halves. -/

/-- A half has a magnitude that is a whole number and a half. -/
theorem IsHalfway.exists_nat {places : Nat} {q : Rat} (h : IsHalfway places q) :
    ∃ n : Nat, |q| * 10 ^ places = n + 1 / 2 := by
  obtain ⟨k, hk⟩ := h
  have habs : |q| * 10 ^ places = |(k : Rat) + 1 / 2| := by
    rw [← hk, abs_mul, abs_of_pos (ten_pow_pos places)]
  rw [habs]
  rcases le_or_gt 0 k with hnonneg | hneg
  · obtain ⟨n, rfl⟩ := Int.eq_ofNat_of_zero_le hnonneg
    refine ⟨n, ?_⟩
    rw [Int.cast_natCast, abs_of_nonneg (by positivity)]
  · obtain ⟨n, rfl⟩ : ∃ n : Nat, k = -(n : Int) - 1 := ⟨(-k - 1).toNat, by omega⟩
    refine ⟨n, ?_⟩
    push_cast
    rw [abs_of_neg (by linarith [(Nat.cast_nonneg n : (0 : Rat) ≤ n)])]
    ring

theorem isHalfway_of_abs {places n : Nat} {q : Rat} (h : |q| * 10 ^ places = n + 1 / 2) :
    IsHalfway places q := by
  by_cases hneg : q < 0
  · refine ⟨-(n : Int) - 1, ?_⟩
    rw [abs_of_neg hneg] at h
    push_cast
    linarith
  · refine ⟨n, ?_⟩
    rw [abs_of_nonneg (not_lt.1 hneg)] at h
    rw [Int.cast_natCast, h]

theorem isHalfway_of_two_mul_mod_eq {places : Nat} {q : Rat}
    (h : 2 * (q.num.natAbs * Nat.pow 10 places % q.den) = q.den) : IsHalfway places q := by
  have hden : (q.den : Rat) ≠ 0 := Nat.cast_ne_zero.2 q.den_ne_zero
  have hscaled := scaled_div_den places q
  generalize q.num.natAbs * Nat.pow 10 places = num at h hscaled
  have hsplit : 2 * num = (2 * (num / q.den) + 1) * q.den := by
    calc 2 * num = 2 * (q.den * (num / q.den) + num % q.den) := by rw [Nat.div_add_mod]
      _ = 2 * (num / q.den) * q.den + 2 * (num % q.den) := by ring
      _ = (2 * (num / q.den) + 1) * q.den := by rw [h]; ring
  have hcast : 2 * (num : Rat) = (2 * (num / q.den : Nat) + 1) * q.den := by exact_mod_cast hsplit
  apply isHalfway_of_abs (n := num / q.den)
  rw [← hscaled, div_eq_iff hden]
  linarith

/-- Odd numbers have odd factors. -/
theorem odd_of_odd_mul {a b : Int} (h : (a * b) % 2 ≠ 0) : b % 2 ≠ 0 := by
  intro heven
  apply h
  rw [Int.mul_emod, heven, mul_zero]
  rfl

theorem odd_five_pow_mul {m : Int} (h : m % 2 ≠ 0) (places : Nat) : (5 ^ places * m) % 2 ≠ 0 := by
  have hfive : (5 : Int) ^ places % 2 = 1 := by
    induction places with
    | zero => rfl
    | succ places ih => rw [pow_succ, Int.mul_emod, ih]; rfl
  rw [Int.mul_emod, hfive, one_mul, Int.emod_emod]
  exact h

theorem ten_pow_eq (places : Nat) : (10 : Rat) ^ places * 2 = 5 ^ places * 2 ^ (places + 1) := by
  have hten : (10 : Rat) = 5 * 2 := by norm_num
  rw [hten, mul_pow, pow_succ, mul_assoc]

/-- A number over a power of two that is whole times a power of five is whole: the power
of five does not go into the power of two. -/
theorem exists_eq_intCast_of_mul_five_pow {q : Rat} {m n : Int} {k places : Nat}
    (hq : q = m / 2 ^ k) (h : q * 5 ^ places = n) :
    ∃ t : Int, n = 5 ^ places * t ∧ q = t := by
  have hpow : (2 : Rat) ^ k ≠ 0 := pow_ne_zero _ two_ne_zero
  have hfive : (5 : Rat) ^ places ≠ 0 := pow_ne_zero _ (by norm_num)
  have hwhole : (5 : Int) ^ places * m = 2 ^ k * n := by
    have hcast : (5 : Rat) ^ places * m = 2 ^ k * n := by
      rw [← h, hq]
      field_simp
    exact_mod_cast hcast
  have hcoprime : IsCoprime ((5 : Int) ^ places) (2 ^ k) :=
    IsCoprime.pow ⟨1, -2, by norm_num⟩
  obtain ⟨t, ht⟩ := hcoprime.dvd_of_dvd_mul_left ⟨_, hwhole.symm⟩
  refine ⟨t, ht, ?_⟩
  have hcast : (n : Rat) = 5 ^ places * t := by exact_mod_cast ht
  apply mul_right_cancel₀ hfive
  rw [h, hcast, mul_comm]

/-- **A half is found by a power of two**: of a finite number, `isPlacesTie` says exactly
whether it is one. -/
theorem Binary64.isPlacesTie_iff {x : Binary64} {q : Rat} (h : x.toRat? = some q) (places : Nat) :
    isPlacesTie places q = true ↔ IsHalfway places q := by
  have hten := ten_pow_eq places
  unfold isPlacesTie
  dsimp only
  rw [Bool.and_eq_true, decide_eq_true_eq, decide_eq_true_eq]
  constructor
  · intro htie
    obtain ⟨hden, hodd⟩ := htie
    have hscaled := (Rat.den_eq_one_iff _).1 hden
    generalize (q * 2 ^ (places + 1)).num = m at hodd hscaled
    -- times a power of five, an odd number is a whole number and a half, twice
    have hfive := odd_five_pow_mul hodd places
    obtain ⟨n, hn⟩ : ∃ n : Int, 5 ^ places * m = 2 * n + 1 := ⟨5 ^ places * m / 2, by omega⟩
    have hcast : (5 : Rat) ^ places * m = 2 * n + 1 := by exact_mod_cast hn
    refine ⟨n, ?_⟩
    have htwice : q * 10 ^ places * 2 = 2 * n + 1 := by
      rw [mul_assoc, hten, ← hcast, hscaled]
      ring
    linarith
  · intro hhalf
    obtain ⟨n, hn⟩ := hhalf
    obtain ⟨m, hm⟩ := exists_eq_div_stepsPerOne h
    rw [cast_stepsPerOne] at hm
    generalize 1074 = k at hm
    have hscaled : q * 2 ^ (places + 1) = ((m * 2 ^ (places + 1) : Int) : Rat) / 2 ^ k := by
      rw [hm, Int.cast_mul, Int.cast_pow, Int.cast_ofNat, div_mul_eq_mul_div]
    have htwice : q * 2 ^ (places + 1) * 5 ^ places = (2 * n + 1 : Int) := by
      push_cast
      calc q * 2 ^ (places + 1) * 5 ^ places = q * (10 ^ places * 2) := by rw [hten]; ring
        _ = 2 * (q * 10 ^ places) := by ring
        _ = 2 * n + 1 := by rw [hn]; ring
    obtain ⟨t, ht, hwhole⟩ := exists_eq_intCast_of_mul_five_pow hscaled htwice
    rw [hwhole]
    refine ⟨Rat.den_intCast t, ?_⟩
    rw [Rat.num_intCast]
    have hodd : (5 ^ places * t) % 2 ≠ 0 := by omega
    exact odd_of_odd_mul hodd

/-! ## §3. Writing with places. -/

theorem roundDiv_eq_of_ne {num den : Nat} (h : 2 * (num % den) ≠ den) (tie other : TieRule) :
    roundDiv tie num den = roundDiv other num den := by
  unfold roundDiv
  split
  · rfl
  · rw [if_pos (by omega), if_pos (by omega)]

/-- What is less than half away from a whole number is rounded to it. -/
theorem roundDiv_eq_of_abs_sub_lt (tie : TieRule) {num den n : Nat} (hden : 0 < den)
    (h : |(num : Rat) / den - n| < 1 / 2) : roundDiv tie num den = n := by
  by_contra hne
  have hone := one_le_abs_sub (Int.natCast_inj.not.2 hne)
  have hnear := (abs_roundDiv_sub_le_half num tie hden).1
  have htriangle := abs_sub_le (roundDiv tie num den : Rat) (num / den) n
  rw [Int.cast_natCast, Int.cast_natCast] at hone
  linarith

theorem countOf_of_half {places n : Nat} {q : Rat} (h : |q| * 10 ^ places = n + 1 / 2) :
    countOf places q = n + 1 := by
  have hden : (q.den : Rat) ≠ 0 := Nat.cast_ne_zero.2 q.den_ne_zero
  rw [← scaled_div_den, div_eq_iff hden] at h
  unfold countOf
  generalize q.num.natAbs * Nat.pow 10 places = num at h ⊢
  have htwice : 2 * num + q.den = (n + 1) * (2 * q.den) := by
    have hcast : 2 * (num : Rat) + q.den = (n + 1) * (2 * q.den) := by
      rw [h]
      ring
    exact_mod_cast hcast
  rw [roundDiv_awayFromZero _ q.den_pos, htwice]
  exact Nat.mul_div_cancel _ (Nat.mul_pos two_pos q.den_pos)

namespace Binary64

theorem throughPlaces_eq (negative : Bool) (places : Nat) (q : Rat) :
    throughPlaces places negative q =
      ofQuotient negative (roundDiv .toEven (q.num.natAbs * Nat.pow 10 places) q.den)
        (Nat.pow 10 places) := by
  unfold throughPlaces
  rw [ofDecimal_eq_ofQuotient, Decimal.numerator_places, Decimal.denominator_places]

/-! ## §4. Moving a half. -/

/-- How many places are few enough for the power of ten to be a number. -/
def exactPlaces : Nat := 22

theorem toRat?_finite_false (rank : Fin rankCount) :
    (finite false rank).toRat? = some (magnitude rank) := by
  have hvalue : (finite false rank).toRat? = some (finiteValue false rank) := rfl
  rw [hvalue, finiteValue_eq, if_neg Bool.false_ne_true]

theorem toRat?_ofNat_of_lt {n : Nat} (h : n < 2 * binade) : (ofNat n).toRat? = some (n : Rat) := by
  obtain ⟨rank, hrank, hmagnitude⟩ := exists_magnitude_eq_mul_two_pow h (Nat.zero_le 970)
  rw [pow_zero, mul_one] at hmagnitude
  have hvalue : ((n : Nat) : Rat) / (1 : Nat) = magnitude rank := by
    rw [hmagnitude, Nat.cast_one, div_one]
  unfold ofNat
  rw [ofQuotient_eq_finite false Nat.one_pos hrank hvalue, ← hmagnitude]
  exact toRat?_finite_false ⟨rank, hrank⟩

theorem toRat?_ofNat_ten_pow {places : Nat} (h : places ≤ exactPlaces) :
    (ofNat (Nat.pow 10 places)).toRat? = some (10 ^ places) := by
  unfold exactPlaces at h
  have hfive : Nat.pow 5 places < 2 * binade := by
    have hle : Nat.pow 5 places ≤ Nat.pow 5 22 := Nat.pow_le_pow_right (by omega) h
    exact hle.trans_lt (by decide)
  obtain ⟨rank, hrank, hmagnitude⟩ := exists_magnitude_eq_mul_two_pow hfive
    (show places ≤ 970 by omega)
  have hten : ((Nat.pow 5 places : Nat) : Rat) * 2 ^ places = 10 ^ places := by
    have hfive' : ((Nat.pow 5 places : Nat) : Rat) = 5 ^ places := Nat.cast_pow 5 places
    rw [hfive', ← mul_pow]
    norm_num
  rw [hten] at hmagnitude
  have hvalue : ((Nat.pow 10 places : Nat) : Rat) / (1 : Nat) = magnitude rank := by
    rw [hmagnitude, Nat.cast_one, div_one, cast_ten_pow]
  unfold ofNat
  rw [ofQuotient_eq_finite false Nat.one_pos hrank hvalue, ← hmagnitude]
  exact toRat?_finite_false ⟨rank, hrank⟩

theorem toRat?_abs {x : Binary64} {q : Rat} (h : x.toRat? = some q) : x.abs.toRat? = some |q| := by
  obtain ⟨negative, rank, rfl, rfl⟩ := toRat?_eq_some_iff.1 h
  rw [abs_finiteValue]
  exact toRat?_finite_false rank

/-- Cutting a whole number and a half leaves the whole number. -/
theorem toRat?_trunc_of_half {x : Binary64} {n : Nat} (h : x.toRat? = some ((n : Rat) + 1 / 2))
    (hn : n < 2 * binade) : x.trunc.toRat? = some (n : Rat) := by
  have hwhole : (0 : Rat) ≤ n := Nat.cast_nonneg n
  obtain ⟨negative, rank, rfl, hvalue⟩ := toRat?_eq_some_iff.1 h
  rw [finiteValue_eq] at hvalue
  cases negative with
  | true =>
    rw [if_pos rfl] at hvalue
    have hmagnitude := magnitude_nonneg rank
    linarith
  | false =>
    rw [if_neg Bool.false_ne_true, magnitude_eq_div] at hvalue
    have hone : (0 : Rat) < (stepsPerOne : Nat) := Nat.cast_pos.2 stepsPerOne_pos
    rw [div_eq_iff hone.ne'] at hvalue
    have hdiv : steps rank / stepsPerOne = n := by
      have hlow : n * stepsPerOne ≤ steps rank := by
        have hcast : (n : Rat) * (stepsPerOne : Nat) ≤ steps rank := by linarith
        exact_mod_cast hcast
      have hhigh : steps rank < n * stepsPerOne + stepsPerOne := by
        have hcast : (steps rank : Rat) < n * (stepsPerOne : Nat) + (stepsPerOne : Nat) := by
          linarith
        exact_mod_cast hcast
      rw [Nat.div_eq_iff stepsPerOne_pos]
      exact ⟨hlow, Nat.le_sub_one_of_lt hhigh⟩
    have htrunc : (finite false rank).trunc = ofQuotient false (steps rank / stepsPerOne) 1 := rfl
    rw [htrunc, hdiv]
    exact toRat?_ofNat_of_lt hn

/-- **A half is moved beyond it exactly**, while there is room for the half. -/
theorem toRat?_beyond {places n : Nat} (hplaces : places ≤ exactPlaces) {x : Binary64} {q : Rat}
    (hx : x.toRat? = some q) (hhalf : |q| * 10 ^ places = n + 1 / 2) (hn : n < binade) :
    ((x.abs * ofNat (Nat.pow 10 places)).trunc + ofNat 1).toRat? = some ((n : Rat) + 1) := by
  have hwhole : (0 : Rat) ≤ n := Nat.cast_nonneg n
  have hproduct : (x.abs * ofNat (Nat.pow 10 places)).toRat? = some ((n : Rat) + 1 / 2) := by
    obtain ⟨negativeZero, heq⟩ := exists_mul_eq_ofRat (toRat?_abs hx) (toRat?_ofNat_ten_pow hplaces)
    obtain ⟨rank, hrank, hmagnitude⟩ := exists_magnitude_eq_div_two_pow
      (show 2 * n + 1 < 2 * binade by omega) (show 1 ≤ 1074 by omega)
    rw [heq, hhalf]
    apply toRat?_ofRat_of_abs_eq _ hrank
    rw [hmagnitude, abs_of_nonneg (by linarith)]
    push_cast
    ring
  have htrunc := toRat?_trunc_of_half hproduct (by omega)
  have hone := toRat?_ofNat_of_lt (show 1 < 2 * binade by decide)
  obtain ⟨negativeZero, heq⟩ := exists_add_eq_ofRat htrunc hone
  obtain ⟨rank, hrank, hmagnitude⟩ := exists_magnitude_eq_mul_two_pow
    (show n + 1 < 2 * binade by omega) (Nat.zero_le 970)
  rw [heq, Nat.cast_one]
  apply toRat?_ofRat_of_abs_eq _ hrank
  rw [hmagnitude, abs_of_nonneg (by linarith)]
  push_cast
  ring

/-- A value far from the ends of the range is rounded to a close number. -/
theorem exists_toRat?_ofRat_near (negativeZero : Bool) {q : Rat} (hlow : (2 ^ 1022)⁻¹ ≤ |q|)
    (hhigh : |q| ≤ 2 ^ 1023) :
    ∃ p, (ofRat negativeZero q).toRat? = some p ∧ |(|p| - |q|)| < (2 ^ 53)⁻¹ * |q| := by
  obtain ⟨high, hrank, hpow⟩ := exists_magnitude_eq_two_pow (Nat.le_refl 1023)
  rw [← natAbs_num_div_den q] at hlow hhigh
  rw [← hpow, div_le_magnitude_iff q.den_pos] at hhigh
  have hfinite := (nearestRank_le q.den_pos hhigh).trans_lt hrank
  have hnear := abs_magnitude_nearestRank_sub_lt_mul _ q.den_pos hlow
  refine ⟨_, toRat?_ofQuotient _ hfinite, ?_⟩
  rw [abs_finiteValue, ← natAbs_num_div_den q]
  exact hnear

theorem inv_two_pow_le_ten_pow_inv {places : Nat} (hplaces : places ≤ exactPlaces) :
    ((2 : Rat) ^ 1022)⁻¹ ≤ (10 ^ places)⁻¹ := by
  unfold exactPlaces at hplaces
  have hten : (10 : Rat) ^ places ≤ 2 ^ (4 * places) := by
    rw [← cast_ten_pow]
    exact_mod_cast ten_pow_le places
  have htwo : (2 : Rat) ^ (4 * places) ≤ 2 ^ 1022 := pow_le_pow_right₀ one_le_two (by omega)
  exact inv_anti₀ (ten_pow_pos places) (hten.trans htwo)

/-- Over the power of ten, the moved half is less than half a unit off: the error is less
than one part in 2^53 of at most 2^52. -/
theorem exists_toRat?_moved {places n : Nat} (hplaces : places ≤ exactPlaces)
    (hn : n < binade) {beyond : Binary64} {p : Rat} (hbeyond : beyond.toRat? = some p)
    (hp : |p| = n + 1) :
    ∃ m, (beyond / ofNat (Nat.pow 10 places)).toRat? = some m ∧
      |(|m| * 10 ^ places - (n + 1))| < 1 / 2 := by
  have hten := ten_pow_pos places
  have hwhole : (1 : Rat) ≤ n + 1 := by linarith [(Nat.cast_nonneg n : (0 : Rat) ≤ n)]
  have hbound : (n : Rat) + 1 ≤ 2 ^ 52 := by
    rw [← cast_binade]
    exact_mod_cast hn
  have hquotient : |p / 10 ^ places| = (n + 1) / 10 ^ places := by
    rw [abs_div, abs_of_pos hten, hp]
  have hlow : (2 ^ 1022)⁻¹ ≤ |p / 10 ^ places| := by
    rw [hquotient, div_eq_mul_inv]
    exact (inv_two_pow_le_ten_pow_inv hplaces).trans
      (le_mul_of_one_le_left (inv_nonneg.2 hten.le) hwhole)
  have hhigh : |p / 10 ^ places| ≤ 2 ^ 1023 := by
    rw [hquotient]
    exact (div_le_self (zero_le_one.trans hwhole) (one_le_pow₀ (by norm_num))).trans
      (hbound.trans (pow_le_pow_right₀ one_le_two (by omega)))
  obtain ⟨negativeZero, heq⟩ :=
    exists_div_eq_ofRat hbeyond (toRat?_ofNat_ten_pow hplaces) hten.ne'
  obtain ⟨m, hm, hnear⟩ := exists_toRat?_ofRat_near negativeZero hlow hhigh
  refine ⟨m, by rw [heq, hm], ?_⟩
  clear hlow hhigh
  have hscaled : |m| * 10 ^ places - (n + 1) = (|m| - |p / 10 ^ places|) * 10 ^ places := by
    rw [hquotient]
    field_simp
  have herror : (2 ^ 53)⁻¹ * |p / 10 ^ places| * 10 ^ places = (2 ^ 53)⁻¹ * ((n : Rat) + 1) := by
    rw [hquotient]
    field_simp
  rw [hscaled, abs_mul, abs_of_pos hten]
  calc |(|m| - |p / 10 ^ places|)| * 10 ^ places
      < (2 ^ 53)⁻¹ * |p / 10 ^ places| * 10 ^ places := mul_lt_mul_of_pos_right hnear hten
    _ = (2 ^ 53)⁻¹ * ((n : Rat) + 1) := herror
    _ ≤ (2 ^ 53)⁻¹ * 2 ^ 52 := by gcongr
    _ = 1 / 2 := by norm_num

/-- **Written with its places, the moved half is the multiple beyond.** -/
theorem throughPlaces_of_near {places n : Nat} (negative : Bool) {m : Rat} (h : |(|m| * 10 ^ places - (n + 1))| < 1 / 2) :
    throughPlaces places negative m = ofQuotient negative (n + 1) (Nat.pow 10 places) := by
  have hcount : roundDiv .toEven (m.num.natAbs * Nat.pow 10 places) m.den = n + 1 := by
    apply roundDiv_eq_of_abs_sub_lt _ m.den_pos
    rw [scaled_div_den]
    exact_mod_cast h
  rw [throughPlaces_eq, hcount]

/-! ## §5. Rounding to decimal places. -/

/-- **Rounding to places** counts the places and reads the count back, unless a half has
no room. -/
theorem toPlaces_eq_ofQuotient {places : Nat} (hplaces : places ≤ exactPlaces) {x : Binary64}
    {q : Rat} (hx : x.toRat? = some q)
    (hroom : IsHalfway places q → |q| * 10 ^ places < 2 ^ 52) :
    toPlaces places x = ofQuotient x.isNegative (countOf places q) (Nat.pow 10 places) := by
  unfold toPlaces
  rw [hx]
  dsimp only
  by_cases htie : isPlacesTie places q = true
  · have hhalfway := (isPlacesTie_iff hx places).1 htie
    obtain ⟨n, hn⟩ := hhalfway.exists_nat
    have hlarge : n < binade := by
      have hlt := hroom hhalfway
      rw [hn, ← cast_binade] at hlt
      have hcast : (n : Rat) < binade := by linarith
      exact_mod_cast hcast
    have hbeyond := toRat?_beyond hplaces hx hn hlarge
    have habs : |(n : Rat) + 1| = n + 1 := abs_of_nonneg (by positivity)
    -- the sign is put back before the division
    obtain ⟨p, hp, hpabs⟩ : ∃ p, (if x.isNegative then
        -((x.abs * ofNat (Nat.pow 10 places)).trunc + ofNat 1)
        else (x.abs * ofNat (Nat.pow 10 places)).trunc + ofNat 1).toRat? = some p ∧
          |p| = n + 1 := by
      split
      · exact ⟨_, toRat?_neg hbeyond, (abs_eq_abs.2 (.inr rfl)).trans habs⟩
      · exact ⟨_, hbeyond, habs⟩
    obtain ⟨m, hm, hnear⟩ := exists_toRat?_moved hplaces hlarge hp hpabs
    rw [if_pos htie, hm, countOf_of_half hn]
    exact throughPlaces_of_near x.isNegative hnear
  · have hne : 2 * (q.num.natAbs * Nat.pow 10 places % q.den) ≠ q.den := by
      intro heq
      exact htie ((isPlacesTie_iff hx places).2 (isHalfway_of_two_mul_mod_eq heq))
    rw [if_neg htie, throughPlaces_eq, roundDiv_eq_of_ne hne .toEven .awayFromZero]
    rfl

/-- The multiple has the sign of the number, which may be zero. -/
theorem ratToPlaces_eq_signed {x : Binary64} {q : Rat} (hx : x.toRat? = some q) (places : Nat) :
    ratToPlaces places q = signed x.isNegative (countOf places q / 10 ^ places) := by
  obtain ⟨negative, rank, rfl, rfl⟩ := toRat?_eq_some_iff.1 hx
  have hsign : (finite negative rank).isNegative = negative := rfl
  rw [ratToPlaces_eq, hsign]
  by_cases hzero : magnitude rank = 0
  · have hvalue : finiteValue negative rank = 0 := by
      rw [finiteValue_eq_signed, hzero, signed_zero]
    have hcount : countOf places 0 = 0 := by
      unfold countOf
      simp [roundDiv]
    rw [hvalue, hcount, Nat.cast_zero, zero_div, signed_zero, signed_zero]
  · have hpos := lt_of_le_of_ne (magnitude_nonneg rank) (Ne.symm hzero)
    have hneg : decide (finiteValue negative rank < 0) = negative := by
      rw [finiteValue_eq]
      cases negative with
      | false =>
        rw [if_neg Bool.false_ne_true]
        exact decide_eq_false (not_lt.2 hpos.le)
      | true =>
        rw [if_pos rfl]
        exact decide_eq_true (neg_lt_zero.2 hpos)
    rw [hneg]

/-- **Rounding to decimal places** gives the number nearest to the nearest multiple, with
the sign of the number that is rounded, for every number that is no half; and for halves
below 2^52 units of the last place.  What is not finite stays. -/
theorem toPlaces_isNearest {places : Nat} (hplaces : places ≤ exactPlaces) (x : Binary64) :
    (x.isFinite = false → toPlaces places x = x) ∧
    ∀ q, x.toRat? = some q → (IsHalfway places q → |q| * 10 ^ places < 2 ^ 52) →
      (toPlaces places x).isNegative = x.isNegative ∧
      ∃ D, IsNearestMultiple places q D ∧ IsNearest D (toPlaces places x) := by
  constructor
  · intro hinfinite
    cases x with
    | nan => rfl
    | infinite negative => rfl
    | finite negative rank => exact nomatch hinfinite
  · intro q hx hroom
    have hplaces' : places ≤ placesRange := by
      unfold exactPlaces at hplaces
      unfold placesRange
      omega
    have hfinite := isFinite_toPlaces hplaces' x
    rw [isFinite_iff.2 ⟨q, hx⟩, toPlaces_eq_ofQuotient hplaces hx hroom] at hfinite
    rw [toPlaces_eq_ofQuotient hplaces hx hroom]
    refine ⟨isNegative_ofQuotient _ _ _, ratToPlaces places q,
      isNearestMultiple_ratToPlaces places q, ?_⟩
    have hten : 0 < Nat.pow 10 places := Nat.pow_pos (by omega)
    rw [ratToPlaces_eq_signed hx, ← cast_ten_pow]
    exact isNearest_ofQuotient _ _ hten hfinite

/-- A half, away from zero. -/
theorem toPlaces_isNearest_sixteenth :
    let x := ofWord 0xbfb0000000000000
    x.toRat? = some (-1 / 16) ∧ IsHalfway 3 (-1 / 16) ∧ toPlaces 3 x = ofDecimal true ⟨63, -3⟩ ∧
      ∃ D, IsNearestMultiple 3 (-1 / 16) D ∧ IsNearest D (toPlaces 3 x) := by
  intro x
  have hx : x.toRat? = some (-1 / 16) := by decide +kernel
  have hroom : |(-1 / 16 : Rat)| * 10 ^ 3 < 2 ^ 52 := by norm_num [abs_of_neg]
  obtain ⟨-, hnearest⟩ :=
    (toPlaces_isNearest (by decide) x).2 (-1 / 16) hx fun _ => hroom
  exact ⟨hx, ⟨-63, by norm_num⟩, by decide +kernel, hnearest⟩

/-- A half without room for it, above an odd multiple: it is moved one multiple too
far. -/
theorem toPlaces_large_half :
    let x := ofWord 0x4292309ce54000c0
    let q : Rat := 80000000000003 / 16
    x.toRat? = some q ∧ IsNearestMultiple 3 q (5000000000000188 / 1000) ∧
      toPlaces 3 x = ofDecimal false ⟨5000000000000189, -3⟩ ∧
      ∀ D, IsNearestMultiple 3 q D → ¬ IsNearest D (toPlaces 3 x) := by
  intro x q
  have hx : x.toRat? = some q := by decide +kernel
  have hmultiple : ratToPlaces 3 q = 5000000000000188 / 1000 := by decide +kernel
  have hnearest := isNearestMultiple_ratToPlaces 3 q
  rw [hmultiple] at hnearest
  refine ⟨hx, hnearest, by decide +kernel, ?_⟩
  intro D hD hnumber
  rw [hD.unique hnearest] at hnumber
  obtain ⟨p, hp, hle⟩ := hnumber.nearest
  have hrounded : (toPlaces 3 x).toRat? = some (2560000000000097 / 512) := by decide +kernel
  obtain rfl := Option.some.inj (hrounded.symm.trans hp)
  -- the number before it is nearer
  have hbefore : (ofWord 0x4292309ce54000c1).toRat? = some (5120000000000193 / 1024) := by
    decide +kernel
  have hfar := hle _ _ hbefore
  rw [abs_of_pos (by norm_num), abs_of_pos (by norm_num)] at hfar
  norm_num at hfar

end Binary64

end FluidClamp
