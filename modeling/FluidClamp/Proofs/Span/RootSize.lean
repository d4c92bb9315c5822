/-
  FluidClamp.Proofs.Span.RootSize
  ───────────────────────────────
  **THE ROOT FONT SIZE ONLY CONVERTS BETWEEN UNITS.**

  The root enters a value where a length in rem becomes pixels and where pixels
  become rem again.  Over exact rationals one fact covers both: with all pixels and
  the root multiplied by the same factor, an interpolation in rem is the same
  (`interpolate_mul`).

      screens   sizes   what does not depend on the root
      px        px      everything, for it is not used
      rem       rem     everything, for all pixels are multiples of it
      px        rem     the bounds; everything, if the screens grow with it
-/
import FluidClamp.Proofs.Span.Ideal

namespace FluidClamp

/-! ## §1. A common factor of all pixels. -/

namespace Span

variable {k : Rat} (hk : 0 < k)

include hk

theorem fromPixels_mul (root pixels : Rat) :
    fromPixels (k * root) .rem (k * pixels) = fromPixels root .rem pixels := by
  rw [fromPixels_eq, fromPixels_eq]
  show ratToPlaces lengthPlaces (k * pixels / (k * root)) = ratToPlaces lengthPlaces (pixels / root)
  rw [mul_div_mul_left _ _ hk.ne']

theorem slope_mul (F f T t : Rat) :
    100 * (k * t - k * f) / (k * T - k * F) = 100 * (t - f) / (T - F) := by
  rw [← mul_sub, ← mul_sub, mul_left_comm, mul_div_mul_left _ _ hk.ne']

theorem intercept_mul (F f T t : Rat) :
    intercept (k * F) (k * f) (k * T) (k * t) = k * intercept F f T t := by
  unfold intercept
  have hnumerator : k * F * (k * t) - k * T * (k * f) = k * (k * (F * t - T * f)) := by ring
  rw [hnumerator, ← mul_sub, mul_div_mul_left _ _ hk.ne', mul_div_assoc]

/-- The offset is written or left out as before, with the same sign. -/
theorem offsetOf_mul (root q : Rat) :
    offsetOf (k * root) .rem (k * q) = offsetOf root .rem q := by
  have hzero : k * q = 0 ↔ q = 0 := mul_eq_zero_iff_left hk.ne'
  have hpos : 0 < k * q ↔ 0 < q := mul_pos_iff_of_pos_left hk
  have habs : |k * q| = k * |q| := by rw [abs_mul, abs_of_pos hk]
  unfold offsetOf
  simp only [hzero, hpos, habs, fromPixels_mul hk]

/-- **A common factor** of all pixels and the root does not change an interpolation in
rem. -/
theorem interpolate_mul (root F f T t : Rat) :
    interpolate (k * root) .rem (k * F) (k * f) (k * T) (k * t) =
      interpolate root .rem F f T t := by
  rw [interpolate_eq, interpolate_eq, ← mul_min_of_nonneg _ _ hk.le, ← mul_max_of_nonneg _ _ hk.le,
    fromPixels_mul hk, fromPixels_mul hk, slope_mul hk, intercept_mul hk, offsetOf_mul hk]

end Span

/-- A length in rem has pixels in proportion to the root. -/
theorem Length.toPixels_mul {length : Length Rat} (h : length.unit = .rem) (k root : Rat) :
    length.toPixels (k * root) = k * length.toPixels root := by
  rw [toPixels_eq, toPixels_eq, h]
  exact mul_left_comm _ _ _

/-- A length in px has the same pixels under every root. -/
theorem Length.toPixels_of_px {length : Length Rat} (h : length.unit = .px) (root : Rat) :
    length.toPixels root = length.value := by
  unfold toPixels
  rw [h]

/-! ## §2. Screens in proportion. -/

/-- The length, multiplied by a factor. -/
def Length.scale (k : Rat) (length : Length Rat) : Length Rat :=
  { length with value := k * length.value }

namespace Span

/-- The span on screens that are multiplied by a factor. -/
def scaleScreens (k : Rat) (span : Span Rat) : Span Rat :=
  ⟨{ span.start with screen := span.start.screen.scale k },
    { span.finish with screen := span.finish.screen.scale k }⟩

variable {span : Span Rat}

/-- Screens in proportion have no fault that the screens did not have. -/
theorem fault?_scaleScreens {k : Rat} (hk : 0 < k) (h : span.fault? = none) :
    (span.scaleScreens k).fault? = none := by
  have hle : ∀ q : Rat, Scalar.le (k * q) (Scalar.ofNat 0) = Scalar.le q (Scalar.ofNat 0) := by
    intro q
    have hsign : k * q ≤ 0 ↔ q ≤ 0 := by rw [← not_lt, mul_pos_iff_of_pos_left hk, not_lt]
    exact decide_eq_decide.2 hsign
  have hequal : ∀ p q : Rat, Scalar.equal (k * p) (k * q) = Scalar.equal p q := by
    intro p q
    exact decide_eq_decide.2 (mul_right_inj' hk.ne')
  rw [fault?_eq_none_iff] at h ⊢
  unfold scaleScreens Length.scale
  simp only [hle, hequal]
  exact h

/-! ## §3. Values under several roots. -/

section

variable (hsizes : span.start.size.value ≠ span.finish.size.value) (hfault : span.fault? = none)

include hsizes hfault

theorem value_eq_interpolate_of_ne (root : Rat) :
    span.value root = .ok (interpolate root span.start.size.unit
      (span.start.screen.toPixels root) (span.start.size.toPixels root)
      (span.finish.screen.toPixels root) (span.finish.size.toPixels root)) :=
  value_of_twoSizes hfault (decide_eq_false hsizes)

/-- **Sizes in rem are the bounds**, whatever the root is. -/
theorem exists_value_of_rem (hunit : span.start.size.unit = .rem) {root : Rat} (hroot : 0 < root) :
    ∃ slope offset, span.value root =
      .ok (.clamp (ratToPlaces 3 (min span.start.size.value span.finish.size.value)) slope offset
        (ratToPlaces 3 (max span.start.size.value span.finish.size.value)) .rem) := by
  obtain ⟨-, -, -, hunits, -⟩ := (fault?_eq_none_iff span).1 hfault
  have hlength : ∀ q : Rat, fromPixels root .rem (q * root) = ratToPlaces 3 q := by
    intro q
    rw [fromPixels_eq]
    show ratToPlaces 3 (q * root / root) = ratToPlaces 3 q
    rw [mul_div_cancel_right₀ _ hroot.ne']
  have hstart : span.start.size.toPixels root = span.start.size.value * root := by
    rw [Length.toPixels_eq, hunit]
    rfl
  have hfinish : span.finish.size.toPixels root = span.finish.size.value * root := by
    rw [Length.toPixels_eq, ← hunits, hunit]
    rfl
  rw [value_eq_interpolate_of_ne hsizes hfault, interpolate_eq, hunit, hstart, hfinish,
    ← min_mul_of_nonneg _ _ hroot.le, ← max_mul_of_nonneg _ _ hroot.le, hlength, hlength]
  exact ⟨_, _, rfl⟩

/-- With all lengths in one unit the root has no influence. -/
theorem value_eq_of_one_unit (hunit : span.start.screen.unit = span.start.size.unit) {r₁ r₂ : Rat}
    (h₁ : 0 < r₁) (h₂ : 0 < r₂) : span.value r₁ = span.value r₂ := by
  obtain ⟨-, -, hscreens, hunits, -⟩ := (fault?_eq_none_iff span).1 hfault
  rw [value_eq_interpolate_of_ne hsizes hfault, value_eq_interpolate_of_ne hsizes hfault]
  cases hsize : span.start.size.unit with
  | px =>
    rw [hsize] at hunit hunits
    rw [hunit] at hscreens
    -- no length is converted, on the way in or on the way out
    simp only [Length.toPixels_of_px hunit, Length.toPixels_of_px hscreens.symm,
      Length.toPixels_of_px hsize, Length.toPixels_of_px hunits.symm]
    rfl
  | rem =>
    rw [hsize] at hunit hunits
    rw [hunit] at hscreens
    -- all pixels are in proportion to the root
    obtain ⟨k, hk, rfl⟩ : ∃ k, 0 < k ∧ r₂ = k * r₁ :=
      ⟨r₂ / r₁, div_pos h₂ h₁, (div_mul_cancel₀ r₂ h₁.ne').symm⟩
    rw [Length.toPixels_mul hunit, Length.toPixels_mul hscreens.symm, Length.toPixels_mul hsize,
      Length.toPixels_mul hunits.symm, interpolate_mul hk]

/-- Screens in px that grow with the root leave the value of sizes in rem as it is. -/
theorem value_scaleScreens (hscreen : span.start.screen.unit = .px)
    (hunit : span.start.size.unit = .rem) {k : Rat} (hk : 0 < k) (root : Rat) :
    (span.scaleScreens k).value (k * root) = span.value root := by
  obtain ⟨-, -, hscreens, hunits, -⟩ := (fault?_eq_none_iff span).1 hfault
  rw [hscreen] at hscreens
  rw [hunit] at hunits
  have hscaled : ∀ length : Length Rat, length.unit = .px →
      (length.scale k).toPixels (k * root) = k * length.toPixels root := by
    intro length hpx
    have hpx' : (length.scale k).unit = .px := hpx
    rw [Length.toPixels_of_px hpx, Length.toPixels_of_px hpx']
    rfl
  -- the sizes of the scaled span are still different, so it has the interpolated value too
  have hsizes' : (span.scaleScreens k).start.size.value ≠
      (span.scaleScreens k).finish.size.value := hsizes
  rw [value_eq_interpolate_of_ne hsizes hfault,
    value_eq_interpolate_of_ne hsizes' (fault?_scaleScreens hk hfault)]
  show Except.ok (interpolate (k * root) span.start.size.unit
    ((span.start.screen.scale k).toPixels (k * root)) (span.start.size.toPixels (k * root))
    ((span.finish.screen.scale k).toPixels (k * root)) (span.finish.size.toPixels (k * root))) = _
  rw [hscaled _ hscreen, hscaled _ hscreens.symm, Length.toPixels_mul hunit,
    Length.toPixels_mul hunits.symm, hunit, interpolate_mul hk]

end

/-- **The root font size only converts between units.**  A span with two sizes that has
a value under some root has one under every root.  For sizes in rem its bounds are the
two sizes, rounded, under every root; with all lengths in one unit the whole value is
the same, and so is its text; and for screens in px and sizes in rem it stays the same
if the screens are multiplied by the factor of the root. -/
theorem value_under_roots {span : Span Rat} (hvalue : ∃ root value, span.value root = .ok value)
    (hsizes : span.start.size.value ≠ span.finish.size.value) {r₁ r₂ : Rat} (h₁ : 0 < r₁)
    (h₂ : 0 < r₂) :
    (span.start.size.unit = .rem →
      let low := ratToPlaces 3 (min span.start.size.value span.finish.size.value)
      let high := ratToPlaces 3 (max span.start.size.value span.finish.size.value)
      ∃ slope₁ offset₁ slope₂ offset₂,
        span.value r₁ = .ok (.clamp low slope₁ offset₁ high .rem) ∧
        span.value r₂ = .ok (.clamp low slope₂ offset₂ high .rem)) ∧
    (span.start.screen.unit = span.start.size.unit →
      ∃ value, span.value r₁ = .ok value ∧ span.value r₂ = .ok value) ∧
    (span.start.screen.unit = .px → span.start.size.unit = .rem → ∀ k, 0 < k →
      ∃ value, span.value r₁ = .ok value ∧ (span.scaleScreens k).value (k * r₁) = .ok value) := by
  obtain ⟨root, value, hvalue⟩ := hvalue
  have hfault := fault?_eq_none_of_value hvalue
  refine ⟨?_, ?_, ?_⟩
  · intro hunit
    obtain ⟨slope₁, offset₁, heq₁⟩ := exists_value_of_rem hsizes hfault hunit h₁
    obtain ⟨slope₂, offset₂, heq₂⟩ := exists_value_of_rem hsizes hfault hunit h₂
    exact ⟨slope₁, offset₁, slope₂, offset₂, heq₁, heq₂⟩
  · intro hunit
    refine ⟨_, value_eq_interpolate_of_ne hsizes hfault r₁, ?_⟩
    rw [← value_eq_of_one_unit hsizes hfault hunit h₁ h₂]
    exact value_eq_interpolate_of_ne hsizes hfault r₁
  · intro hscreen hunit k hk
    refine ⟨_, value_eq_interpolate_of_ne hsizes hfault r₁, ?_⟩
    rw [value_scaleScreens hsizes hfault hscreen hunit hk]
    exact value_eq_interpolate_of_ne hsizes hfault r₁

/-- All lengths in rem, with a root of 16 and of 10 pixels. -/
theorem value_under_roots_rem :
    let span : Span Rat :=
      ⟨⟨⟨384 / 5, .rem⟩, ⟨2, .rem⟩⟩, ⟨⟨128, .rem⟩, ⟨4, .rem⟩⟩⟩
    let value : FluidValue Rat := .clamp 2 (390625 / 100000) (some (.minus, 1)) 4 .rem
    span.value 16 = .ok value ∧ span.value 10 = .ok value := by
  intro span value
  have hvalue : span.value 16 = .ok value := by decide +kernel
  have hsizes : span.start.size.value ≠ span.finish.size.value := by decide
  obtain ⟨-, hroots, -⟩ := value_under_roots ⟨16, value, hvalue⟩ hsizes
    (show (0 : Rat) < 16 by norm_num) (show (0 : Rat) < 10 by norm_num)
  obtain ⟨other, h₁, h₂⟩ := hroots rfl
  obtain rfl := Except.ok.inj (hvalue.symm.trans h₁)
  exact ⟨hvalue, h₂⟩

end Span

end FluidClamp
