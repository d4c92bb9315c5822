/-
  FluidClamp.Proofs.Number.Signs
  ──────────────────────────────
  **ROUNDING DOES NOT LOOK AT SIGNS.**

  A result is rounded by its magnitude, so products and quotients hand the sign of
  an operand on, with infinities and zeros among them, and a difference turns its
  sign where its operands change places:

      x · −y     =  −(x · y)
      −x / −y    =  x / y
      y − x      =  −(x − y)      unless the difference is zero

  The difference of equal numbers is the same zero in either order, so there the
  sign of a zero is left open.  `Alike` numbers are equal but for that, and no text
  tells them apart: the operations on the way to one keep numbers alike, and zero
  is written without its sign.
-/
import FluidClamp.Number.Text
import FluidClamp.Proofs.Number.ToPlaces

namespace FluidClamp.Binary64

/-! ## §1. Numbers that are alike. -/

/-- At the same place in the order: the same number, where the two zeros are one. -/
def Alike (x y : Binary64) : Prop := x.place? = y.place?

instance (x y : Binary64) : Decidable (Alike x y) := inferInstanceAs (Decidable (_ = _))

theorem alike_signedZero (s t : Bool) : Alike (signedZero s) (signedZero t) := by
  cases s <;> cases t <;> rfl

theorem place?_signed_ne {s t : Bool} {rank : Nat} (h : rank < rankCount) :
    place?.signed s rank ≠ place?.signed t rankCount := by
  unfold place?.signed
  split <;> split <;> omega

/-- Alike numbers that are not the same are the two zeros. -/
theorem Alike.eq_or_signedZero {x y : Binary64} (h : Alike x y) :
    x = y ∨ ∃ s t, x = signedZero s ∧ y = signedZero t := by
  unfold Alike at h
  cases x with
  | nan =>
    cases y with
    | nan => exact .inl rfl
    | infinite t => exact nomatch h
    | finite t j => exact nomatch h
  | infinite s =>
    cases y with
    | nan => exact nomatch h
    | infinite t =>
      cases s <;> cases t <;> first | exact .inl rfl | exact absurd h (by decide)
    | finite t j => exact absurd (Option.some.inj h).symm (place?_signed_ne j.isLt)
  | finite s i =>
    cases y with
    | nan => exact nomatch h
    | infinite t => exact absurd (Option.some.inj h) (place?_signed_ne i.isLt)
    | finite t j =>
      have hplace : place?.signed s i = place?.signed t j := Option.some.inj h
      unfold place?.signed at hplace
      by_cases hsign : s = t
      · subst hsign
        have hrank : i = j := by
          apply Fin.ext
          split at hplace <;> omega
        exact .inl (hrank ▸ rfl)
      · -- of unlike signs, so the rank is its own opposite
        have hzero : i.val = 0 ∧ j.val = 0 := by
          cases s <;> cases t <;> simp at hsign hplace <;> omega
        have hi : i = ⟨0, rankCount_pos⟩ := Fin.ext hzero.1
        have hj : j = ⟨0, rankCount_pos⟩ := Fin.ext hzero.2
        exact .inr ⟨s, t, hi ▸ rfl, hj ▸ rfl⟩

theorem toRat?_signedZero (negative : Bool) : (signedZero negative).toRat? = some 0 := by
  have hvalue : (signedZero negative).toRat? = some (finiteValue negative 0) := rfl
  rw [hvalue, finiteValue_eq, magnitude_zero, neg_zero, ite_self]

/-- A number with the value zero is one of the zeros. -/
theorem eq_signedZero {x : Binary64} (h : x.toRat? = some 0) : ∃ s, x = signedZero s := by
  obtain ⟨s, rank, rfl, hvalue⟩ := toRat?_eq_some_iff.1 h
  have hmagnitude := abs_finiteValue s rank
  rw [hvalue, abs_zero, ← magnitude_zero] at hmagnitude
  have hrank : rank = ⟨0, rankCount_pos⟩ := Fin.ext (magnitude_strictMono.injective hmagnitude).symm
  exact ⟨s, hrank ▸ rfl⟩

/-! ## §2. Signs of results. -/

theorem neg_signedZero (s : Bool) : -signedZero s = signedZero (!s) := rfl

theorem ofQuotient_not (negative : Bool) (num den : Nat) :
    ofQuotient (!negative) num den = -ofQuotient negative num den := by
  unfold ofQuotient
  dsimp only
  split
  · rfl
  · rfl

/-- **Rounding keeps signs apart from magnitudes.** -/
theorem ofRat_neg {s t : Bool} {q : Rat} (h : q = 0 → s = !t) : ofRat s (-q) = -ofRat t q := by
  unfold ofRat
  rw [Rat.num_neg_eq_neg_num, Rat.den_neg_eq_den, Int.natAbs_neg, ← ofQuotient_not]
  by_cases hq : q = 0
  · rw [if_pos hq, if_pos (neg_eq_zero.2 hq), h hq]
  · -- a value that is not zero has the sign of the result in itself
    have hsign : decide (-q < 0) = !decide (q < 0) := by
      rcases lt_or_gt_of_ne hq with hneg | hpos
      · rw [decide_eq_false (by linarith), decide_eq_true hneg, Bool.not_true]
      · rw [decide_eq_true (by linarith), decide_eq_false (by linarith), Bool.not_false]
    rw [if_neg hq, if_neg (neg_ne_zero.2 hq), hsign]

theorem neg_finite (s : Bool) (i : Fin rankCount) : -finite s i = finite (!s) i := rfl

theorem finite_sub_finite (s t : Bool) (i j : Fin rankCount) :
    finite s i - finite t j = ofRat (s && !t) (finiteValue s i - finiteValue t j) := by
  rw [sub_eq_add_neg, neg_finite, Rat.sub_eq_add_neg, ← finiteValue_not]
  show add (finite s i) (finite (!t) j) = _
  rw [add]

theorem finite_mul_finite (s t : Bool) (i j : Fin rankCount) :
    finite s i * finite t j = ofRat (s != t) (finiteValue s i * finiteValue t j) := by
  show mul (finite s i) (finite t j) = _
  rw [mul]

theorem finite_div_finite (s t : Bool) (i j : Fin rankCount) :
    finite s i / finite t j =
      if j.val = 0 then if i.val = 0 then nan else infinite (s != t)
      else ofRat (s != t) (finiteValue s i / finiteValue t j) := by
  show div (finite s i) (finite t j) = _
  rw [div]

theorem mul_neg_eq_neg (x y : Binary64) : x * -y = -(x * y) := by
  cases x with
  | nan => rfl
  | infinite s =>
    cases y with
    | nan => rfl
    | infinite t => cases s <;> cases t <;> rfl
    | finite t j =>
      show (if j.val = 0 then nan else infinite (s != !t)) =
        neg (if j.val = 0 then nan else infinite (s != t))
      split
      · rfl
      · cases s <;> cases t <;> rfl
  | finite s i =>
    cases y with
    | nan => rfl
    | infinite t =>
      show (if i.val = 0 then nan else infinite (s != !t)) =
        neg (if i.val = 0 then nan else infinite (s != t))
      split
      · rfl
      · cases s <;> cases t <;> rfl
    | finite t j =>
      rw [neg_finite, finite_mul_finite, finite_mul_finite, finiteValue_not, mul_neg]
      exact ofRat_neg fun _ => by cases s <;> cases t <;> rfl

/-- **Two signs cancel out in a quotient**, also over zero. -/
theorem neg_div_neg_cancel (x y : Binary64) : -x / -y = x / y := by
  have hsame : ∀ s t : Bool, ((!s) != !t) = (s != t) := by decide
  cases x with
  | nan => rfl
  | infinite s =>
    cases y with
    | nan => rfl
    | infinite t => rfl
    | finite t j => exact congrArg infinite (hsame s t)
  | finite s i =>
    cases y with
    | nan => rfl
    | infinite t => exact congrArg signedZero (hsame s t)
    | finite t j =>
      rw [neg_finite, neg_finite, finite_div_finite, finite_div_finite, hsame, finiteValue_not,
        finiteValue_not, neg_div_neg_eq]

/-- **A difference turns its sign** where its operands change places. -/
theorem sub_eq_neg_sub {x y : Binary64} (h : (x - y).toRat? ≠ some 0) : y - x = -(x - y) := by
  cases x with
  | nan => cases y <;> rfl
  | infinite s =>
    cases y with
    | nan => rfl
    | infinite t => cases s <;> cases t <;> rfl
    | finite t j => rfl
  | finite s i =>
    cases y with
    | nan => rfl
    | infinite t => cases t <;> rfl
    | finite t j =>
      have hne : finiteValue s i ≠ finiteValue t j := by
        intro heq
        exact h (toRat?_sub_eq_zero_iff.2 ⟨finiteValue s i, rfl, heq ▸ rfl⟩)
      rw [finite_sub_finite, finite_sub_finite, ← neg_sub]
      exact ofRat_neg fun hzero => absurd (sub_eq_zero.1 hzero) hne

/-- Whatever the difference is, it is like its opposite. -/
theorem alike_sub_neg_sub (x y : Binary64) : Alike (y - x) (-(x - y)) := by
  by_cases hzero : (x - y).toRat? = some 0
  · obtain ⟨p, hx, hy⟩ := toRat?_sub_eq_zero_iff.1 hzero
    obtain ⟨s, hs⟩ := eq_signedZero hzero
    obtain ⟨t, ht⟩ := eq_signedZero (toRat?_sub_eq_zero_iff.2 ⟨p, hy, hx⟩)
    rw [hs, ht, neg_signedZero]
    exact alike_signedZero t (!s)
  · rw [sub_eq_neg_sub hzero]
    rfl

/-! ## §3. Operations on alike numbers. -/

theorem ofRat_zero (negative : Bool) : ofRat negative 0 = signedZero negative := by
  have hrounded := ofQuotient_zero negative (Rat.den_pos 0)
  unfold ofRat
  rw [if_pos rfl]
  exact hrounded

theorem finite_mul_signedZero (s t : Bool) (rank : Fin rankCount) :
    finite s rank * signedZero t = signedZero (s != t) := by
  have hzero : finiteValue t 0 = 0 := Option.some.inj (toRat?_signedZero t)
  unfold signedZero
  rw [finite_mul_finite, hzero, mul_zero]
  exact ofRat_zero (s != t)

theorem signedZero_div_finite (s t : Bool) (rank : Fin rankCount) :
    signedZero s / finite t rank = if rank.val = 0 then nan else signedZero (s != t) := by
  have hzero : finiteValue s 0 = 0 := Option.some.inj (toRat?_signedZero s)
  unfold signedZero
  rw [finite_div_finite, if_pos rfl, hzero, zero_div, ofRat_zero]
  rfl

namespace Alike

variable {x y : Binary64}

theorem mul (k : Binary64) (h : Alike x y) : Alike (k * x) (k * y) := by
  rcases h.eq_or_signedZero with rfl | ⟨s, t, rfl, rfl⟩
  · rfl
  · cases k with
    | nan => rfl
    | infinite r => rfl
    | finite r rank =>
      rw [finite_mul_signedZero, finite_mul_signedZero]
      exact alike_signedZero _ _

theorem div (k : Binary64) (h : Alike x y) : Alike (x / k) (y / k) := by
  rcases h.eq_or_signedZero with rfl | ⟨s, t, rfl, rfl⟩
  · rfl
  · cases k with
    | nan => rfl
    | infinite r => exact alike_signedZero (s != r) (t != r)
    | finite r rank =>
      rw [signedZero_div_finite, signedZero_div_finite]
      split
      · rfl
      · exact alike_signedZero _ _

theorem abs_eq (h : Alike x y) : x.abs = y.abs := by
  rcases h.eq_or_signedZero with rfl | ⟨s, t, rfl, rfl⟩
  · rfl
  · rfl

theorem toPlaces (places : Nat) (h : Alike x y) :
    Alike (x.toPlaces places) (y.toPlaces places) := by
  have hzero : ∀ s, (signedZero s).toPlaces places = signedZero s := by
    intro s
    have hnone : isPlacesTie places 0 = false := isPlacesTie_intCast places 0
    have hsign : (signedZero s).isNegative = s := rfl
    have hcount : roundDiv .toEven ((0 : Rat).num.natAbs * Nat.pow 10 places) (0 : Rat).den = 0 := by
      simp [roundDiv]
    unfold Binary64.toPlaces
    rw [toRat?_signedZero]
    simp only [hnone, Bool.false_eq_true, if_false, hsign]
    unfold throughPlaces ofDecimal
    rw [hcount, if_pos rfl]
    exact ofQuotient_zero s Nat.one_pos
  rcases h.eq_or_signedZero with rfl | ⟨s, t, rfl, rfl⟩
  · rfl
  · rw [hzero, hzero]
    exact alike_signedZero s t

/-- **Alike numbers have one text**: that of either zero is `0`. -/
theorem cssText_eq (h : Alike x y) : x.cssText = y.cssText := by
  have hzero : ∀ s, (signedZero s).cssText = "0" := by
    intro s
    unfold signedZero cssText NumberStyle.write NumberStyle.css
    dsimp only
    rw [if_pos rfl, ite_self]
  rcases h.eq_or_signedZero with rfl | ⟨s, t, rfl, rfl⟩
  · rfl
  · rw [hzero, hzero]

end Alike

/-- **A quotient of differences** does not depend on the order of their operands, if
the divisor is not zero. -/
theorem alike_mul_sub_div_sub (k x y : Binary64) {a b : Binary64}
    (h : (a - b).toRat? ≠ some 0) : Alike (k * (y - x) / (b - a)) (k * (x - y) / (a - b)) := by
  have hturned := ((alike_sub_neg_sub x y).mul k).div (b - a)
  rw [mul_neg_eq_neg] at hturned
  calc (k * (y - x) / (b - a)).place?
      = (-(k * (x - y)) / (b - a)).place? := hturned
    _ = (-(k * (x - y)) / -(a - b)).place? := by rw [sub_eq_neg_sub h]
    _ = (k * (x - y) / (a - b)).place? := by rw [neg_div_neg_cancel]

theorem alike_sub_div_sub (x y : Binary64) {a b : Binary64} (h : (a - b).toRat? ≠ some 0) :
    Alike ((y - x) / (b - a)) ((x - y) / (a - b)) := by
  have hturned := (alike_sub_neg_sub x y).div (b - a)
  calc ((y - x) / (b - a)).place?
      = (-(x - y) / (b - a)).place? := hturned
    _ = (-(x - y) / -(a - b)).place? := by rw [sub_eq_neg_sub h]
    _ = ((x - y) / (a - b)).place? := by rw [neg_div_neg_cancel]

/-! ## §4. The smaller and the larger of two. -/

/-- Numbers are equal that are alike, unless they are no numbers. -/
theorem alike_of_equal {x y : Binary64} (h : x.equal y = true) : Alike x y := by
  unfold equal compares at h
  unfold Alike
  split at h
  · next i j hx hy => rw [hx, hy, of_decide_eq_true h]
  · exact nomatch h

theorem exists_place? {x : Binary64} (h : x ≠ nan) : ∃ i, x.place? = some i := by
  cases x with
  | nan => exact absurd rfl h
  | infinite negative => exact ⟨_, rfl⟩
  | finite negative rank => exact ⟨_, rfl⟩

theorem lt_eq_decide {x y : Binary64} {i j : Int} (hx : x.place? = some i)
    (hy : y.place? = some j) : x.lt y = decide (i < j) := by
  unfold lt compares
  rw [hx, hy]

theorem alike_min_comm (x y : Binary64) : Alike (x.min y) (y.min x) := by
  unfold min
  by_cases hx : x = nan
  · by_cases hy : y = nan
    · rw [hx, hy]
      rfl
    · rw [if_pos hx, if_neg hy, if_pos hx]
      rfl
  · by_cases hy : y = nan
    · rw [if_neg hx, if_pos hy, if_pos hy]
      rfl
    · obtain ⟨i, hi⟩ := exists_place? hx
      obtain ⟨j, hj⟩ := exists_place? hy
      rw [if_neg hx, if_neg hy, if_neg hx, if_neg hy, lt_eq_decide hj hi, lt_eq_decide hi hj]
      unfold Alike
      -- at one place either may be taken, and they are alike
      split <;> split <;> simp_all <;> omega

theorem alike_max_comm (x y : Binary64) : Alike (x.max y) (y.max x) := by
  unfold max
  by_cases hx : x = nan
  · by_cases hy : y = nan
    · rw [hx, hy]
      rfl
    · rw [if_pos hx, if_neg hy, if_pos hx]
      rfl
  · by_cases hy : y = nan
    · rw [if_neg hx, if_pos hy, if_pos hy]
      rfl
    · obtain ⟨i, hi⟩ := exists_place? hx
      obtain ⟨j, hj⟩ := exists_place? hy
      rw [if_neg hx, if_neg hy, if_neg hx, if_neg hy, lt_eq_decide hi hj, lt_eq_decide hj hi]
      unfold Alike
      split <;> split <;> simp_all <;> omega

end FluidClamp.Binary64
