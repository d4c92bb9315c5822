/-
  FluidClamp.Proofs.Number.Order
  ──────────────────────────────
  **COMPARING BINARY64 NUMBERS IS COMPARING THEIR VALUES.**

  Numbers are compared by their places, that is by rank and sign, and no value is
  computed for it.  A larger rank is a larger magnitude, also where one binade
  ends and the next begins:

      steps r  <  steps (r + 1)

  Hence the value is a strictly increasing function of the place, and for finite
  numbers `le` and `equal` say what they say of the exact values.
-/
import Mathlib.Data.Rat.Floor
import Mathlib.Order.Monotone.Basic
import Mathlib.Tactic.GCongr
import Mathlib.Tactic.Linarith
import Mathlib.Tactic.Positivity
import Mathlib.Tactic.Ring
import FluidClamp.Number.Scalar

namespace FluidClamp.Binary64

/-! ## §1. Magnitudes grow with the rank. -/

theorem binade_pos : 0 < binade := by decide

theorem rankCount_pos : 0 < rankCount := by decide

/-- A rank in the same binade as the one before is one unit of it further. -/
theorem steps_succ_of_div_eq {rank : Nat} (h : (rank + 1) / binade = rank / binade) :
    steps (rank + 1) = steps rank + Nat.pow 2 (rank / binade - 1) := by
  have hle : (rank / binade - 1) * binade ≤ rank :=
    (Nat.mul_le_mul_right _ (Nat.sub_le _ _)).trans (Nat.div_mul_le_self _ _)
  have hsub : rank + 1 - (rank / binade - 1) * binade =
      rank - (rank / binade - 1) * binade + 1 := by omega
  unfold steps
  rw [h, hsub, Nat.add_mul, Nat.one_mul]

/-- The last rank of a binade and the first of the next. -/
theorem steps_of_succ_eq_mul {rank count : Nat} (h : rank + 1 = (count + 1) * binade) :
    steps rank < steps (rank + 1) := by
  have hB := binade_pos
  have hmul : (count + 1) * binade = count * binade + binade := Nat.succ_mul _ _
  have hdiv : rank / binade = count := by
    rw [Nat.div_eq_iff hB]
    omega
  have hdiv' : (rank + 1) / binade = count + 1 := by
    rw [h, Nat.mul_div_cancel _ hB]
  unfold steps
  rw [hdiv, hdiv', Nat.add_sub_cancel]
  cases count with
  | zero =>
    -- the first two binades count in the same unit
    show (rank - 0 * binade) * 1 < (rank + 1 - 0 * binade) * 1
    omega
  | succ count =>
    -- the unit doubles, and the significand falls back to its smallest
    have hpow : Nat.pow 2 (count + 1) = 2 * Nat.pow 2 count := Nat.pow_succ'
    have hone : 0 < Nat.pow 2 count := Nat.two_pow_pos count
    have hmul' : (count + 1) * binade = count * binade + binade := Nat.succ_mul _ _
    have hlast : rank - count * binade < 2 * binade := by omega
    have hfirst : rank + 1 - (count + 1) * binade = binade := by omega
    rw [Nat.add_sub_cancel, hfirst, hpow]
    calc (rank - count * binade) * Nat.pow 2 count
        < 2 * binade * Nat.pow 2 count := Nat.mul_lt_mul_of_pos_right hlast hone
      _ = binade * (2 * Nat.pow 2 count) := by ring

/-- **A larger rank is a larger magnitude.** -/
theorem steps_strictMono : StrictMono steps := by
  refine strictMono_nat_of_lt_succ fun rank => ?_
  have hB := binade_pos
  by_cases h : (rank + 1) / binade = rank / binade
  · rw [steps_succ_of_div_eq h]
    exact Nat.lt_add_of_pos_right (Nat.two_pow_pos _)
  · -- a rank that opens a binade is a whole number of binades
    have hdvd : binade ∣ rank + 1 := by
      by_contra hnot
      exact h (Nat.succ_div_of_not_dvd hnot)
    obtain ⟨count, hcount⟩ := hdvd
    cases count with
    | zero => omega
    | succ count => exact steps_of_succ_eq_mul (hcount.trans (Nat.mul_comm _ _))

/-! ## §2. Values grow with the place. -/

theorem two_pow_pos (n : Nat) : 0 < Nat.pow 2 n := Nat.two_pow_pos n

theorem stepsPerOne_pos : 0 < stepsPerOne := by
  unfold stepsPerOne
  apply two_pow_pos

/-- The exact magnitude of a rank. -/
def magnitude (rank : Nat) : Rat := mkRat (steps rank) stepsPerOne

theorem magnitude_zero : magnitude 0 = 0 := by
  have hsteps : steps 0 = 0 := by decide
  unfold magnitude
  rw [hsteps]
  exact Rat.zero_mkRat _

/-- A magnitude is its steps, each one of those that make a whole. -/
theorem magnitude_eq_div (rank : Nat) :
    magnitude rank = (steps rank : Rat) / (stepsPerOne : Nat) := by
  unfold magnitude
  rw [Rat.mkRat_eq_div, Int.cast_natCast]

theorem magnitude_strictMono : StrictMono magnitude := by
  intro i j h
  have hone : (0 : Rat) < (stepsPerOne : Nat) := Nat.cast_pos.2 stepsPerOne_pos
  have hsteps : ((steps i : Nat) : Rat) < (steps j : Nat) := Nat.cast_lt.2 (steps_strictMono h)
  rw [magnitude_eq_div, magnitude_eq_div]
  exact div_lt_div_of_pos_right hsteps hone

theorem magnitude_nonneg (rank : Nat) : 0 ≤ magnitude rank := by
  rw [← magnitude_zero]
  exact magnitude_strictMono.monotone (Nat.zero_le rank)

theorem finiteValue_eq (negative : Bool) (rank : Nat) :
    finiteValue negative rank = if negative then -magnitude rank else magnitude rank := rfl

/-- **The value of a finite number is compared like its place.** -/
theorem finiteValue_le_iff (s t : Bool) (i j : Nat) :
    finiteValue s i ≤ finiteValue t j ↔ place?.signed s i ≤ place?.signed t j := by
  have hi := magnitude_nonneg i
  have hj := magnitude_nonneg j
  have hmono : ∀ a b : Nat, magnitude a ≤ magnitude b ↔ a ≤ b := fun _ _ =>
    magnitude_strictMono.le_iff_le
  have hzero : ∀ a : Nat, magnitude a ≤ 0 ↔ a = 0 := by
    intro a
    rw [← magnitude_zero, hmono, Nat.le_zero]
  rw [finiteValue_eq, finiteValue_eq]
  unfold place?.signed
  -- numbers of different signs are only equal as the two zeros
  cases s with
  | false =>
    cases t with
    | false =>
      simp only [Bool.false_eq_true, if_false, hmono]
      omega
    | true =>
      simp only [Bool.false_eq_true, if_false, if_true]
      constructor
      · intro h
        have hi' := (hzero i).1 (by linarith)
        have hj' := (hzero j).1 (by linarith)
        omega
      · intro h
        have hi' : i = 0 := by omega
        have hj' : j = 0 := by omega
        rw [hi', hj', magnitude_zero, neg_zero]
  | true =>
    cases t with
    | false =>
      simp only [Bool.false_eq_true, if_false, if_true]
      constructor
      · intro _
        omega
      · intro _
        linarith
    | true =>
      simp only [if_true, neg_le_neg_iff, hmono]
      omega

/-! ## §3. Comparing numbers. -/

theorem toRat?_eq_some_iff {x : Binary64} {q : Rat} :
    x.toRat? = some q ↔ ∃ negative rank, x = .finite negative rank ∧ finiteValue negative rank = q := by
  cases x with
  | nan => simp [toRat?]
  | infinite negative => simp [toRat?]
  | finite negative rank => simp [toRat?]

theorem exists_toRat?_of_isFinite {x : Binary64} (h : x.isFinite = true) :
    ∃ q, x.toRat? = some q := by
  cases x with
  | nan => exact nomatch h
  | infinite negative => exact nomatch h
  | finite negative rank => exact ⟨_, rfl⟩

/-- **`le` compares the exact values.** -/
theorem le_iff {x y : Binary64} {p q : Rat} (hx : x.toRat? = some p) (hy : y.toRat? = some q) :
    x.le y = true ↔ p ≤ q := by
  obtain ⟨s, i, rfl, rfl⟩ := toRat?_eq_some_iff.1 hx
  obtain ⟨t, j, rfl, rfl⟩ := toRat?_eq_some_iff.1 hy
  rw [finiteValue_le_iff]
  exact decide_eq_true_iff

/-- **`equal` compares the exact values.** -/
theorem equal_iff {x y : Binary64} {p q : Rat} (hx : x.toRat? = some p)
    (hy : y.toRat? = some q) : x.equal y = true ↔ p = q := by
  obtain ⟨s, i, rfl, rfl⟩ := toRat?_eq_some_iff.1 hx
  obtain ⟨t, j, rfl, rfl⟩ := toRat?_eq_some_iff.1 hy
  rw [le_antisymm_iff (a := finiteValue s i), finiteValue_le_iff, finiteValue_le_iff,
    ← le_antisymm_iff]
  exact decide_eq_true_iff

/-- **`lt` compares the exact values.** -/
theorem lt_iff {x y : Binary64} {p q : Rat} (hx : x.toRat? = some p) (hy : y.toRat? = some q) :
    x.lt y = true ↔ p < q := by
  obtain ⟨s, i, rfl, rfl⟩ := toRat?_eq_some_iff.1 hx
  obtain ⟨t, j, rfl, rfl⟩ := toRat?_eq_some_iff.1 hy
  rw [← not_le, finiteValue_le_iff, not_le]
  exact decide_eq_true_iff

theorem equal_comm (x y : Binary64) : x.equal y = y.equal x := by
  unfold equal compares
  cases x.place? with
  | none => cases y.place? <;> rfl
  | some i =>
    cases y.place? with
    | none => rfl
    | some j => exact decide_eq_decide.2 eq_comm

theorem toRat?_zero : zero.toRat? = some 0 := by
  rw [zero, toRat?, finiteValue_eq, if_neg Bool.false_ne_true, magnitude_zero]

theorem ofNat_zero : ofNat 0 = zero := by decide +kernel

theorem toRat?_ofNat_zero : (ofNat 0).toRat? = some 0 := by
  rw [ofNat_zero]
  exact toRat?_zero

end FluidClamp.Binary64
