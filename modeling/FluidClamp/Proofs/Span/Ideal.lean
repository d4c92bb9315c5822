/-
  FluidClamp.Proofs.Span.Ideal
  ────────────────────────────
  **THE VALUE OF A SPAN FOLLOWS THE IDEAL SIZE.**

  A span asks for one size on the far side of its first screen, for another on
  the far side of its second screen, and for the straight line in between
  (`Span.idealPixels`).  What it gets is `clamp(low, slope·vw ± offset, high)`,
  which a browser evaluates to `max low (min line high)` (`FluidValue.pixels`).
  Over exact rationals two things remain to be compared:

      unrounded   the line, clamped between the two sizes, is the ideal size,
                  in whichever order screens and sizes come
      rounded     the slope errs by half of 10^−5, each length by half of 10^−3,
                  and clamping adds nothing to these errors
-/
import Mathlib.Algebra.Order.Group.MinMax
import FluidClamp.Span
import FluidClamp.Proofs.Number.Places

namespace FluidClamp

/-! ## §1. Pixels. -/

/-- How many pixels one of the unit is. -/
def LengthUnit.pixels (root : Rat) : LengthUnit → Rat
  | .px => 1
  | .rem => root

theorem LengthUnit.pixels_pos {root : Rat} (h : 0 < root) (unit : LengthUnit) :
    0 < unit.pixels root := by
  cases unit with
  | px => exact one_pos
  | rem => exact h

theorem Length.toPixels_eq (root : Rat) (length : Length Rat) :
    length.toPixels root = length.value * length.unit.pixels root := by
  obtain ⟨value, unit⟩ := length
  cases unit with
  | px => exact (mul_one value).symm
  | rem => rfl

/-- Lengths of one unit keep their difference in pixels. -/
theorem Length.toPixels_ne {root : Rat} (hroot : 0 < root) {a b : Length Rat}
    (hunit : a.unit = b.unit) (hvalue : a.value ≠ b.value) :
    a.toPixels root ≠ b.toPixels root := by
  intro heq
  rw [toPixels_eq, toPixels_eq, hunit] at heq
  exact hvalue (mul_right_cancel₀ (LengthUnit.pixels_pos hroot b.unit).ne' heq)

theorem Span.fromPixels_eq (root : Rat) (unit : LengthUnit) (pixels : Rat) :
    fromPixels root unit pixels = ratToPlaces lengthPlaces (pixels / unit.pixels root) := by
  cases unit with
  | px =>
    show ratToPlaces lengthPlaces pixels = ratToPlaces lengthPlaces (pixels / 1)
    rw [div_one]
  | rem => rfl

/-- **A length that is written and read again** errs by half of 10^−3 units. -/
theorem Span.abs_fromPixels_mul_sub_le {root : Rat} (hroot : 0 < root) (unit : LengthUnit)
    (pixels : Rat) :
    |fromPixels root unit pixels * unit.pixels root - pixels| ≤
      0.0005 * unit.pixels root := by
  have hunit := LengthUnit.pixels_pos hroot unit
  have hround := abs_ratToPlaces_sub_le lengthPlaces (pixels / unit.pixels root)
  rw [fromPixels_eq]
  calc |ratToPlaces lengthPlaces (pixels / unit.pixels root) * unit.pixels root - pixels|
      = |ratToPlaces lengthPlaces (pixels / unit.pixels root) - pixels / unit.pixels root| *
          unit.pixels root := by
        rw [← abs_of_pos hunit, ← abs_mul, abs_of_pos hunit, sub_mul,
          div_mul_cancel₀ _ hunit.ne']
    _ ≤ 1 / (2 * 10 ^ lengthPlaces) * unit.pixels root := by gcongr
    _ = 0.0005 * unit.pixels root := by
        unfold lengthPlaces
        norm_num

theorem Span.fromPixels_mono {root : Rat} (hroot : 0 < root) (unit : LengthUnit) {p q : Rat}
    (h : p ≤ q) : fromPixels root unit p ≤ fromPixels root unit q := by
  have hunit := LengthUnit.pixels_pos hroot unit
  rw [fromPixels_eq, fromPixels_eq]
  apply ratToPlaces_mono
  gcongr

theorem Span.fromPixels_nonneg {root : Rat} (hroot : 0 < root) (unit : LengthUnit) {p : Rat}
    (h : 0 ≤ p) : 0 ≤ fromPixels root unit p := by
  have hunit := LengthUnit.pixels_pos hroot unit
  rw [fromPixels_eq]
  exact ratToPlaces_nonneg _ (by positivity)

/-! ## §2. The size that a value stands for. -/

/-- The offset of a value with its sign; none is zero. -/
def FluidValue.signedOffset : Option (Sign × Rat) → Rat
  | none => 0
  | some (.plus, offset) => offset
  | some (.minus, offset) => -offset

/-- **What a browser makes of a value**, in pixels, on a viewport `width` pixels
wide: `1vw` is a hundredth of the width, and `clamp(low, line, high)` is
`max(low, min(line, high))`. -/
def FluidValue.pixels (root width : Rat) : FluidValue Rat → Rat
  | .constant size => size.toPixels root
  | .clamp low slope offset high unit =>
      max (low * unit.pixels root)
        (min (slope * width / 100 + signedOffset offset * unit.pixels root)
          (high * unit.pixels root))

/-! ## §3. The size that a span asks for. -/

/-- Whether `width` is on the side of `screen` that faces away from `other`. -/
def IsBeyond (screen other width : Rat) : Prop :=
  (screen < other ∧ width ≤ screen) ∨ (other < screen ∧ screen ≤ width)

instance (screen other width : Rat) : Decidable (IsBeyond screen other width) :=
  inferInstanceAs (Decidable (_ ∨ _))

/-- The size at `width` on the straight line from size `f` on screen `F` to size
`t` on screen `T`. -/
def line (F f T t width : Rat) : Rat := f + (t - f) * ((width - F) / (T - F))

/-- **The ideal size** at `width`: `f` on the far side of `F`, `t` on the far side
of `T`, and the line between them. -/
def idealSize (F f T t width : Rat) : Rat :=
  if IsBeyond F T width then f
  else if IsBeyond T F width then t
  else line F f T t width

/-- The ideal size of a span, in pixels. -/
def Span.idealPixels (root width : Rat) (span : Span Rat) : Rat :=
  idealSize (span.start.screen.toPixels root) (span.start.size.toPixels root)
    (span.finish.screen.toPixels root) (span.finish.size.toPixels root) width

/-- Beyond the first screen, the way from it to the second has not begun. -/
theorem isBeyond_start_iff {F T : Rat} (h : F ≠ T) (width : Rat) :
    IsBeyond F T width ↔ (width - F) / (T - F) ≤ 0 := by
  unfold IsBeyond
  rcases lt_or_gt_of_ne h with hlt | hgt
  · rw [div_le_iff₀ (by linarith), zero_mul]
    constructor
    · rintro (⟨-, hw⟩ | ⟨hlt', -⟩) <;> linarith
    · intro hw
      exact .inl ⟨hlt, by linarith⟩
  · rw [div_le_iff_of_neg (by linarith), zero_mul]
    constructor
    · rintro (⟨hlt', -⟩ | ⟨-, hw⟩) <;> linarith
    · intro hw
      exact .inr ⟨hgt, by linarith⟩

/-- Beyond the second screen, the way from the first to it is over. -/
theorem isBeyond_finish_iff {F T : Rat} (h : F ≠ T) (width : Rat) :
    IsBeyond T F width ↔ 1 ≤ (width - F) / (T - F) := by
  have hTF : T - F ≠ 0 := sub_ne_zero.2 h.symm
  have hFT : F - T ≠ 0 := sub_ne_zero.2 h
  -- the way back from the second screen is what is left of the way to it
  have hrest : (width - T) / (F - T) = 1 - (width - F) / (T - F) := by
    rw [eq_sub_iff_add_eq, ← neg_sub T F, div_neg]
    field_simp
    ring
  rw [isBeyond_start_iff h.symm, hrest]
  constructor <;> intro hw <;> linarith

/-- **Clamping the line between the two sizes** cuts it off at the two ends of
the way between the screens. -/
theorem clamp_line (f t way : Rat) :
    max (min f t) (min (f + (t - f) * way) (max f t)) =
      if way ≤ 0 then f else if 1 ≤ way then t else f + (t - f) * way := by
  rcases le_total f t with h | h
  · -- the size grows: the line leaves the lower bound and arrives at the upper one
    have hlen : 0 ≤ t - f := by linarith
    rw [min_eq_left h, max_eq_right h]
    split
    · have hle : (t - f) * way ≤ 0 := mul_nonpos_of_nonneg_of_nonpos hlen ‹_›
      rw [min_eq_left (by linarith), max_eq_left (by linarith)]
    · split
      · have hge : t - f ≤ (t - f) * way := le_mul_of_one_le_right hlen ‹_›
        rw [min_eq_right (by linarith), max_eq_right h]
      · have hge : 0 ≤ (t - f) * way := mul_nonneg hlen (by linarith)
        have hle : (t - f) * way ≤ t - f := mul_le_of_le_one_right hlen (by linarith)
        rw [min_eq_left (by linarith), max_eq_right (by linarith)]
  · -- the size shrinks: the bounds have changed places and the line falls
    have hlen : t - f ≤ 0 := by linarith
    rw [min_eq_right h, max_eq_left h]
    split
    · have hge : 0 ≤ (t - f) * way := mul_nonneg_of_nonpos_of_nonpos hlen ‹_›
      rw [min_eq_right (by linarith), max_eq_right h]
    · split
      · have hle : (t - f) * way ≤ t - f := mul_le_of_one_le_right hlen ‹_›
        rw [min_eq_left (by linarith), max_eq_left (by linarith)]
      · have hle : (t - f) * way ≤ 0 := mul_nonpos_of_nonpos_of_nonneg hlen (by linarith)
        have hge : t - f ≤ (t - f) * way := le_mul_of_le_one_right hlen (by linarith)
        rw [min_eq_left (by linarith), max_eq_right (by linarith)]

/-- **Unrounded, the clamped line is the ideal size.** -/
theorem clamp_line_eq_idealSize {F T : Rat} (h : F ≠ T) (f t width : Rat) :
    max (min f t) (min (line F f T t width) (max f t)) = idealSize F f T t width := by
  unfold idealSize
  rw [line, clamp_line]
  simp only [isBeyond_start_iff h, isBeyond_finish_iff h]

/-! ## §4. Rounding. -/

/-- The slope and the intercept of a value describe the line. -/
theorem slope_add_intercept {F T : Rat} (h : F ≠ T) (f t width : Rat) :
    100 * (t - f) / (T - F) * width / 100 + (F * t - T * f) / (F - T) = line F f T t width := by
  have hTF : T - F ≠ 0 := sub_ne_zero.2 h.symm
  rw [← neg_sub T F, div_neg]
  unfold line
  field_simp
  ring

/-- The offset that is written for an intercept. -/
def Span.offsetOf (root : Rat) (unit : LengthUnit) (intercept : Rat) : Option (Sign × Rat) :=
  if intercept = 0 then none
  else some (if 0 < intercept then .plus else .minus, fromPixels root unit |intercept|)

theorem Span.offsetOf_nonneg {root : Rat} (hroot : 0 < root) {unit : LengthUnit} {q : Rat}
    {sign : Sign} {offset : Rat} (h : offsetOf root unit q = some (sign, offset)) :
    0 ≤ offset := by
  unfold offsetOf at h
  split at h
  · exact nomatch h
  · obtain ⟨-, rfl⟩ := Prod.mk.inj (Option.some.inj h)
    exact fromPixels_nonneg hroot unit (abs_nonneg q)

theorem Span.abs_signedOffset_sub_le {root : Rat} (hroot : 0 < root) (unit : LengthUnit)
    (intercept : Rat) :
    |FluidValue.signedOffset (offsetOf root unit intercept) * unit.pixels root - intercept| ≤
      0.0005 * unit.pixels root := by
  unfold offsetOf
  have hunit := LengthUnit.pixels_pos hroot unit
  have hround := abs_fromPixels_mul_sub_le hroot unit |intercept|
  rcases lt_trichotomy intercept 0 with hneg | hzero | hpos
  · rw [if_neg hneg.ne, if_neg (not_lt.2 hneg.le)]
    show |-fromPixels root unit |intercept| * unit.pixels root - intercept| ≤ _
    rw [abs_of_neg hneg] at hround ⊢
    -- the minus sign is written, the error is that of the positive offset
    rw [← abs_neg]
    convert hround using 2
    ring
  · subst hzero
    rw [if_pos rfl]
    show |0 * unit.pixels root - 0| ≤ _
    rw [zero_mul, sub_zero, abs_zero]
    positivity
  · rw [if_neg hpos.ne', if_pos hpos]
    show |fromPixels root unit |intercept| * unit.pixels root - intercept| ≤ _
    rw [abs_of_pos hpos] at hround ⊢
    exact hround

/-- **Clamping adds nothing to errors.** -/
theorem abs_clamp_sub_clamp_le {low low' mid mid' high high' ε : Rat}
    (hlow : |low - low'| ≤ ε) (hmid : |mid - mid'| ≤ ε) (hhigh : |high - high'| ≤ ε) :
    |max low (min mid high) - max low' (min mid' high')| ≤ ε := by
  calc |max low (min mid high) - max low' (min mid' high')|
      ≤ max |low - low'| |min mid high - min mid' high'| := abs_max_sub_max_le_max _ _ _ _
    _ ≤ max |low - low'| (max |mid - mid'| |high - high'|) :=
        max_le_max le_rfl (abs_min_sub_min_le_max _ _ _ _)
    _ ≤ ε := max_le hlow (max_le hmid hhigh)

/-! ## §5. The value of a span over exact rationals. -/

theorem scalarOfNat_eq (n : Nat) : (Scalar.ofNat n : Rat) = n := rfl

theorem scalarEqual_eq (p q : Rat) : Scalar.equal p q = decide (p = q) := rfl

theorem scalarLt_eq (p q : Rat) : Scalar.lt p q = decide (p < q) := rfl

theorem scalarToPlaces_eq (n : Nat) (q : Rat) : Scalar.toPlaces n q = ratToPlaces n q := rfl

theorem scalarMin_eq (p q : Rat) : Scalar.min p q = min p q := by
  show (if q < p then q else p) = min p q
  split
  · exact (min_eq_right (le_of_lt ‹_›)).symm
  · exact (min_eq_left (not_lt.1 ‹_›)).symm

theorem scalarMax_eq (p q : Rat) : Scalar.max p q = max p q := by
  show (if p < q then q else p) = max p q
  split
  · exact (max_eq_right (le_of_lt ‹_›)).symm
  · exact (max_eq_left (not_lt.1 ‹_›)).symm

theorem scalarAbs_eq (q : Rat) : Scalar.abs q = |q| := by
  show (if q < 0 then -q else q) = |q|
  split
  · exact (abs_of_neg ‹_›).symm
  · exact (abs_of_nonneg (not_lt.1 ‹_›)).symm

namespace Span

/-- The intercept of the line, in pixels. -/
def intercept (F f T t : Rat) : Rat := (F * t - T * f) / (F - T)

theorem interpolate_eq (root : Rat) (unit : LengthUnit) (F f T t : Rat) :
    interpolate root unit F f T t =
      .clamp (fromPixels root unit (min f t))
        (ratToPlaces slopePlaces (100 * (t - f) / (T - F)))
        (offsetOf root unit (intercept F f T t))
        (fromPixels root unit (max f t)) unit := by
  simp only [interpolate, offsetOf, intercept, scalarOfNat_eq, Nat.cast_zero, Nat.cast_ofNat,
    scalarEqual_eq, scalarLt_eq, scalarToPlaces_eq, scalarMin_eq, scalarMax_eq, scalarAbs_eq,
    decide_eq_true_eq]
  -- what is left differs in where the arithmetic comes from, the interface or the rationals
  rfl

/-- **The value of a faultless span** with two sizes is an interpolation. -/
theorem value_eq_interpolate (root : Rat) {span : Span Rat}
    (hstart : 0 < span.start.screen.value) (hfinish : 0 < span.finish.screen.value)
    (hscreenUnits : span.start.screen.unit = span.finish.screen.unit)
    (hsizeUnits : span.start.size.unit = span.finish.size.unit)
    (hscreens : span.start.screen.value ≠ span.finish.screen.value)
    (hsizes : span.start.size.value ≠ span.finish.size.value) :
    span.value root = .ok (interpolate root span.start.size.unit
      (span.start.screen.toPixels root) (span.start.size.toPixels root)
      (span.finish.screen.toPixels root) (span.finish.size.toPixels root)) := by
  have hfault : span.fault? = none := by
    rw [fault?_eq_none_iff]
    refine ⟨decide_eq_false (not_le.2 hstart), decide_eq_false (not_le.2 hfinish), hscreenUnits,
      hsizeUnits, fun _ => decide_eq_false hscreens⟩
  exact value_of_twoSizes hfault (decide_eq_false hsizes)

/-- The slope that is written errs by half of 10^−5 hundredths of the width. -/
theorem abs_slope_sub_le (slope : Rat) {width : Rat} (h : 0 ≤ width) :
    |ratToPlaces slopePlaces slope * width / 100 - slope * width / 100| ≤
      0.000005 * width / 100 := by
  have hround := abs_ratToPlaces_sub_le slopePlaces slope
  calc |ratToPlaces slopePlaces slope * width / 100 - slope * width / 100|
      = |ratToPlaces slopePlaces slope - slope| * (width / 100) := by
        rw [← abs_of_nonneg (show 0 ≤ width / 100 by positivity), ← abs_mul]
        congr 1
        ring
    _ ≤ 1 / (2 * 10 ^ slopePlaces) * (width / 100) := by gcongr
    _ = 0.000005 * width / 100 := by
        unfold slopePlaces
        ring

/-- **An interpolation follows the ideal size** on every viewport. -/
theorem abs_pixels_interpolate_sub_le {root : Rat} (hroot : 0 < root) (unit : LengthUnit)
    {F T : Rat} (h : F ≠ T) (f t width : Rat) (hwidth : 0 ≤ width) :
    |(interpolate root unit F f T t).pixels root width - idealSize F f T t width| ≤
      0.000005 * width / 100 + 0.0005 * unit.pixels root := by
  have hunit := LengthUnit.pixels_pos hroot unit
  have hlength : ∀ p : Rat,
      |fromPixels root unit p * unit.pixels root - p| ≤
        0.000005 * width / 100 + 0.0005 * unit.pixels root := by
    intro p
    have hslack : 0 ≤ 0.000005 * width / 100 := by positivity
    have hp := abs_fromPixels_mul_sub_le hroot unit p
    linarith
  have hslope := abs_slope_sub_le (100 * (t - f) / (T - F)) hwidth
  have hoffset := abs_signedOffset_sub_le hroot unit (intercept F f T t)
  rw [interpolate_eq, ← clamp_line_eq_idealSize h]
  -- the bounds have the error of a length, the line that of the slope besides
  refine abs_clamp_sub_clamp_le (hlength _) ?_ (hlength _)
  rw [← slope_add_intercept h, add_sub_add_comm]
  exact (abs_add_le _ _).trans (add_le_add hslope hoffset)

/-- **The value of a span follows the ideal size.**  For two screens and two sizes
of one unit each, the value reads `clamp(low, slope·vw ± offset, high)` in the
unit of the sizes, with a sign only in front of an offset that is not negative,
and `low ≤ high`.  On every viewport it is within half a unit of the last decimal
place, of the slope and of the lengths, of the ideal size. -/
theorem value_follows_idealPixels (root : Rat) (span : Span Rat) (hroot : 0 < root)
    (hstart : 0 < span.start.screen.value) (hfinish : 0 < span.finish.screen.value)
    (hscreenUnits : span.start.screen.unit = span.finish.screen.unit)
    (hsizeUnits : span.start.size.unit = span.finish.size.unit)
    (hscreens : span.start.screen.value ≠ span.finish.screen.value)
    (hsizes : span.start.size.value ≠ span.finish.size.value) :
    ∃ (low slope : Rat) (offset : Option (Sign × Rat)) (high : Rat),
      let unit := span.start.size.unit
      let value := FluidValue.clamp low slope offset high unit
      span.value root = .ok value ∧
      (∀ number : Rat → String, value.text number =
        "clamp(" ++ number low ++ unit.text ++ ", " ++
          number slope ++ "vw" ++
            (match offset with
              | none => ""
              | some (.plus, b) => " + " ++ number b ++ unit.text
              | some (.minus, b) => " - " ++ number b ++ unit.text) ++ ", " ++
          number high ++ unit.text ++ ")") ∧
      (∀ sign b, offset = some (sign, b) → 0 ≤ b) ∧
      low ≤ high ∧
      ∀ width : Rat, 0 ≤ width →
        |value.pixels root width - span.idealPixels root width| ≤
          0.000005 * width / 100 + 0.0005 * unit.pixels root := by
  have hscreens' := Length.toPixels_ne hroot hscreenUnits hscreens
  have hvalue := value_eq_interpolate root hstart hfinish hscreenUnits hsizeUnits
    hscreens hsizes
  have herror := abs_pixels_interpolate_sub_le hroot span.start.size.unit hscreens'
    (span.start.size.toPixels root) (span.finish.size.toPixels root)
  simp only [interpolate_eq] at hvalue herror
  refine ⟨_, _, _, _, hvalue, ?_, ?_, ?_, herror⟩
  · intro number
    unfold FluidValue.text
    rcases offsetOf root span.start.size.unit _ with _ | ⟨_ | _, b⟩
    · rfl
    · rfl
    · rfl
  · intro sign b hoffset
    exact offsetOf_nonneg hroot hoffset
  · exact fromPixels_mono hroot _ min_le_max

/-- Screens in falling order, and a size that is negative on one of them. -/
theorem value_follows_idealPixels_reversed :
    let span : Span Rat := ⟨⟨⟨1280, .px⟩, ⟨-1, .rem⟩⟩, ⟨⟨768, .px⟩, ⟨2, .rem⟩⟩⟩
    ∃ low slope offset high,
      span.value 16 = .ok (.clamp low slope offset high .rem) ∧ low ≤ high ∧
      ∀ width : Rat, 0 ≤ width →
        |(FluidValue.clamp low slope offset high .rem).pixels 16 width -
            span.idealPixels 16 width| ≤
          0.000005 * width / 100 + 0.0005 * 16 := by
  intro span
  obtain ⟨low, slope, offset, high, hvalue, -, -, hle, herror⟩ :=
    value_follows_idealPixels 16 span (by norm_num)
      (show (0 : Rat) < 1280 by norm_num) (show (0 : Rat) < 768 by norm_num) rfl rfl
      (show (1280 : Rat) ≠ 768 by norm_num) (show (-1 : Rat) ≠ 2 by norm_num)
  exact ⟨low, slope, offset, high, hvalue, hle, herror⟩

-- from 16px on a screen of 320px to 32px on one of 1280px
example : (⟨⟨⟨320, .px⟩, ⟨16, .px⟩⟩, ⟨⟨1280, .px⟩, ⟨32, .px⟩⟩⟩ : Span Rat).value 16 =
    .ok (.clamp 16 (166667 / 100000) (some (.plus, 10667 / 1000)) 32 .px) := by
  decide +kernel

end Span

end FluidClamp
