/-
  FluidClamp.Proofs.Span.Finite
  ─────────────────────────────
  **WHICH VALUES ARE WRITTEN WITH FINITE NUMBERS.**

  Every length of a shorthand is finite, the root is finite and positive, and the
  screens differ; but the value of a span is computed from their pixels, and
  those may be too large, too small, or equal.  What holds of every span is that
  rounding for output adds nothing: the numbers of the text are finite exactly if
  the numbers before rounding are (`unrounded`), and exactly then the text has
  neither of the words for what is not finite.  The divisor is zero exactly if
  both screens have the same number of pixels.

  `InRange` is enough for all of it: pixels up to `2 ^ 250`, screens at least
  `2 ^ -250` pixels apart, and a root of at least that size.  The intercept needs
  the most room:

      F · t − T · f    Within 501      by F − T    Within 751
      its size in rem  Within 1001     largest     2 ^ 1023
-/
import FluidClamp.Proofs.Length.Language
import FluidClamp.Proofs.Number.Characters
import FluidClamp.Proofs.Number.Range
import FluidClamp.Failure

namespace FluidClamp

open Binary64

/-! ## §1. The numbers of a value and its text. -/

/-- The numbers that are written in a value. -/
def FluidValue.numbers {α : Type} : FluidValue α → List α
  | .constant size => [size.value]
  | .clamp low slope offset high _ => low :: slope :: high :: (offset.map Prod.snd).toList

/-- The text has neither of the words for what is not finite. -/
def IsClean (text : String) : Prop :=
  ¬ "NaN".toList <:+: text.toList ∧ ¬ "inf".toList <:+: text.toList

theorem isClean_of_not_mem {text : String} (hN : 'N' ∉ text.toList) (hi : 'i' ∉ text.toList) :
    IsClean text := by
  constructor
  · intro hword
    exact hN (hword.subset List.mem_cons_self)
  · intro hword
    exact hi (hword.subset List.mem_cons_self)

/-- The words are written for every number that is not finite. -/
theorem not_isClean_cssText {x : Binary64} (h : x.isFinite = false) : ¬ IsClean x.cssText := by
  rintro ⟨hnan, hinf⟩
  cases x with
  | nan => exact hnan ⟨[], [], rfl⟩
  | finite negative rank => exact nomatch h
  | infinite negative =>
    cases negative with
    | false => exact hinf ⟨[], [], rfl⟩
    | true => exact hinf ⟨['-'], [], rfl⟩

theorem IsClean.of_append {before text after : String} (h : IsClean (before ++ text ++ after)) :
    IsClean text := by
  have hinfix : text.toList <:+: (before ++ text ++ after).toList := by
    rw [String.toList_append, String.toList_append]
    exact ⟨before.toList, after.toList, rfl⟩
  exact ⟨fun hword => h.1 (hword.trans hinfix), fun hword => h.2 (hword.trans hinfix)⟩

/-- The characters that a value has around its numbers. -/
def FluidValue.frame : List Char := "clamp(, vw+-pxrem)".toList

/-- **What holds of the frame and of the numbers holds of the whole text.** -/
theorem FluidValue.forall_mem_text {α : Type} {number : α → String} {value : FluidValue α}
    {P : Char → Prop} (hframe : ∀ c ∈ frame, P c)
    (hnumbers : ∀ x ∈ value.numbers, ∀ c ∈ (number x).toList, P c) :
    ∀ c ∈ (value.text number).toList, P c := by
  have hpiece : ∀ piece : String, piece.toList ⊆ frame → ∀ c ∈ piece.toList, P c := by
    intro piece hsubset c hc
    exact hframe c (hsubset hc)
  have hunit : ∀ unit : LengthUnit, ∀ c ∈ unit.text.toList, P c := by
    intro unit
    cases unit <;> exact hpiece _ (by decide)
  have hclamp := hpiece "clamp(" (by decide)
  have hcomma := hpiece ", " (by decide)
  have hvw := hpiece "vw" (by decide)
  have hclose := hpiece ")" (by decide)
  have hblank := hpiece " " (by decide)
  have hsign : ∀ sign : Sign, P sign.toChar := by
    intro sign
    cases sign <;> exact hframe _ (by decide)
  cases value with
  | constant size =>
    have hnumber := hnumbers size.value List.mem_cons_self
    unfold text
    simp only [String.toList_append, List.forall_mem_append]
    exact ⟨hnumber, hunit size.unit⟩
  | clamp low slope offset high unit =>
    simp only [numbers, List.forall_mem_cons] at hnumbers
    obtain ⟨hlow, hslope, hhigh, hoffset⟩ := hnumbers
    have htail : ∀ c ∈ (text.offsetText number unit offset).toList, P c := by
      cases offset with
      | none => exact fun c hc => nomatch hc
      | some signed =>
        have hnumber := hoffset signed.2 (by simp)
        unfold text.offsetText
        simp only [String.toList_append, String.toList_singleton, List.forall_mem_append,
          List.forall_mem_singleton]
        exact ⟨⟨⟨⟨hblank, hsign signed.1⟩, hblank⟩, hnumber⟩, hunit unit⟩
    unfold text
    simp only [String.toList_append, List.forall_mem_append]
    exact ⟨⟨⟨⟨⟨⟨⟨⟨⟨⟨hclamp, hlow⟩, hunit unit⟩, hcomma⟩, hslope⟩, hvw⟩, htail⟩, hcomma⟩, hhigh⟩,
      hunit unit⟩, hclose⟩

/-- A letter that neither the frame of a value nor its numbers have. -/
theorem FluidValue.not_mem_text {α : Type} {number : α → String} {value : FluidValue α}
    {letter : Char} (hletter : letter = 'N' ∨ letter = 'i')
    (h : ∀ x ∈ value.numbers, letter ∉ (number x).toList) :
    letter ∉ (value.text number).toList := by
  have hnot : letter ∉ frame := by
    rcases hletter with rfl | rfl <;> decide
  have hframe : ∀ c ∈ frame, c ≠ letter := by
    rintro c hc rfl
    exact hnot hc
  have hnumbers : ∀ x ∈ value.numbers, ∀ c ∈ (number x).toList, c ≠ letter := by
    rintro x hx c hc rfl
    exact h x hx hc
  intro hmem
  exact forall_mem_text hframe hnumbers letter hmem rfl

/-- Every number of a value stands in its text. -/
theorem FluidValue.exists_text_eq {α : Type} (number : α → String) {value : FluidValue α} {x : α}
    (h : x ∈ value.numbers) :
    ∃ before after, value.text number = before ++ number x ++ after := by
  cases value with
  | constant size =>
    obtain rfl := List.mem_singleton.1 h
    exact ⟨"", size.unit.text, by rw [String.empty_append]; rfl⟩
  | clamp low slope offset high unit =>
    unfold text
    simp only [numbers, List.mem_cons] at h
    rcases h with rfl | rfl | rfl | hoffset
    · refine ⟨"clamp(", unit.text ++ ", " ++ number slope ++ "vw" ++
        text.offsetText number unit offset ++ ", " ++ number high ++ unit.text ++ ")", ?_⟩
      simp only [String.append_assoc]
    · refine ⟨"clamp(" ++ number low ++ unit.text ++ ", ", "vw" ++
        text.offsetText number unit offset ++ ", " ++ number high ++ unit.text ++ ")", ?_⟩
      simp only [String.append_assoc]
    · refine ⟨"clamp(" ++ number low ++ unit.text ++ ", " ++ number slope ++ "vw" ++
        text.offsetText number unit offset ++ ", ", unit.text ++ ")", ?_⟩
      simp only [String.append_assoc]
    · cases offset with
      | none => exact nomatch hoffset
      | some signed =>
        obtain rfl := List.mem_singleton.1 hoffset
        refine ⟨"clamp(" ++ number low ++ unit.text ++ ", " ++ number slope ++ "vw" ++
          " " ++ String.singleton signed.1.toChar ++ " ",
          unit.text ++ ", " ++ number high ++ unit.text ++ ")", ?_⟩
        unfold text.offsetText
        simp only [String.append_assoc]

/-- **The text is clean exactly if all numbers in it are finite.** -/
theorem FluidValue.isClean_text_iff {value : FluidValue Binary64} :
    IsClean (value.text cssText) ↔ ∀ x ∈ value.numbers, x.isFinite = true := by
  constructor
  · intro hclean x hx
    obtain ⟨before, after, htext⟩ := exists_text_eq cssText hx
    rw [htext] at hclean
    by_contra hnot
    exact not_isClean_cssText (Bool.eq_false_iff.2 hnot) hclean.of_append
  · intro hfinite
    -- neither letter is one of a number, nor stands in the frame around the numbers
    have hletter : ∀ letter : Char, letter = 'N' ∨ letter = 'i' →
        letter ∉ (value.text cssText).toList := by
      intro letter hletter
      apply not_mem_text hletter
      intro x hx hmem
      have hchar := isNumberChar_of_mem_cssText (hfinite x hx) hmem
      unfold IsNumberChar at hchar
      rcases hletter with rfl | rfl
      · exact absurd hchar (by decide)
      · exact absurd hchar (by decide)
    exact isClean_of_not_mem (hletter 'N' (.inl rfl)) (hletter 'i' (.inr rfl))

/-! ## §2. The numbers before rounding. -/

namespace Span

/-- A number of pixels in the given unit. -/
def inUnit (root : Binary64) (unit : LengthUnit) (pixels : Binary64) : Binary64 :=
  match unit with
  | .px => pixels
  | .rem => pixels / root

/-- The slope, in hundredths of the viewport width. -/
def slopeOf (F f T t : Binary64) : Binary64 := ofNat 100 * (t - f) / (T - F)

/-- The size at a viewport width of zero. -/
def interceptOf (F f T t : Binary64) : Binary64 := (F * t - T * f) / (F - T)

/-- The numbers of a value before they are rounded for output. -/
def unrounded (root : Binary64) (unit : LengthUnit) (F f T t : Binary64) : List Binary64 :=
  [inUnit root unit (f.min t), slopeOf F f T t, inUnit root unit (f.max t),
    inUnit root unit (interceptOf F f T t).abs]

theorem isFinite_fromPixels (root : Binary64) (unit : LengthUnit) (pixels : Binary64) :
    (fromPixels root unit pixels).isFinite = (inUnit root unit pixels).isFinite := by
  have hplaces : lengthPlaces ≤ placesRange := by decide
  cases unit with
  | px => exact isFinite_toPlaces hplaces pixels
  | rem => exact isFinite_toPlaces hplaces (pixels / root)

/-- Nothing is nothing in every unit. -/
theorem isFinite_inUnit_zero {root pixels : Binary64} {r : Rat} (hroot : root.toRat? = some r)
    (hpos : 0 < r) (unit : LengthUnit) (h : pixels.toRat? = some 0) :
    (inUnit root unit pixels).isFinite = true := by
  cases unit with
  | px => exact isFinite_iff.2 ⟨0, h⟩
  | rem =>
    obtain ⟨negativeZero, heq⟩ := exists_div_eq_ofRat h hroot hpos.ne'
    have hzero : |0 / r| ≤ 2 ^ 0 := by
      rw [zero_div, abs_zero]
      exact zero_le_one.trans_eq (pow_zero 2).symm
    show (pixels / root).isFinite = true
    rw [heq]
    exact (within_ofRat negativeZero (Nat.zero_le 1023) hzero).isFinite

theorem toRat?_abs_zero {x : Binary64} (h : x.toRat? = some 0) : x.abs.toRat? = some 0 := by
  obtain ⟨negative, rank, rfl, hvalue⟩ := toRat?_eq_some_iff.1 h
  have hmagnitude := abs_finiteValue negative rank
  rw [hvalue, abs_zero] at hmagnitude
  show some (finiteValue false rank) = some 0
  rw [finiteValue_eq, if_neg Bool.false_ne_true, ← hmagnitude]

theorem interpolate_eq_clamp (root : Binary64) (unit : LengthUnit) (F f T t : Binary64) :
    interpolate root unit F f T t =
      .clamp (fromPixels root unit (f.min t)) (toPlaces slopePlaces (slopeOf F f T t))
        (if (interceptOf F f T t).equal (ofNat 0) then none
          else some (if (ofNat 0).lt (interceptOf F f T t) then Sign.plus else Sign.minus,
            fromPixels root unit (interceptOf F f T t).abs))
        (fromPixels root unit (f.max t)) unit := rfl

/-- **Rounding for output neither makes a number infinite nor hides that it is.** -/
theorem numbers_interpolate_iff {root : Binary64} {r : Rat} (hroot : root.toRat? = some r)
    (hpos : 0 < r) (unit : LengthUnit) (F f T t : Binary64) :
    (∀ x ∈ (interpolate root unit F f T t).numbers, x.isFinite = true) ↔
      ∀ x ∈ unrounded root unit F f T t, x.isFinite = true := by
  have hplaces : slopePlaces ≤ placesRange := by decide
  have hslope := isFinite_toPlaces hplaces (slopeOf F f T t)
  rw [interpolate_eq_clamp]
  unfold unrounded FluidValue.numbers
  cases hequal : (interceptOf F f T t).equal (ofNat 0) with
  | false =>
    rw [if_neg Bool.false_ne_true]
    simp only [Option.map_some, Option.toList_some, List.forall_mem_cons, isFinite_fromPixels,
      hslope]
  | true =>
    -- an intercept of zero is not written, and it is finite in every unit
    have hzero := toRat?_abs_zero (toRat?_of_equal_zero hequal)
    have hfinite := isFinite_inUnit_zero hroot hpos unit hzero
    rw [if_pos rfl]
    simp only [Option.map_none, Option.toList_none, List.forall_mem_cons, isFinite_fromPixels,
      hslope, hfinite, true_and]

/-! ## §3. Pixels in range. -/

/-- Pixels that leave room for every operation on them. -/
structure PixelsInRange (root F f T t : Binary64) : Prop where
  root : Beyond 250 root
  startScreen : Within 250 F
  startSize : Within 250 f
  finishScreen : Within 250 T
  finishSize : Within 250 t
  apart : ∀ p q, F.toRat? = some p → T.toRat? = some q → (2 ^ 250)⁻¹ ≤ |p - q|

variable {root F f T t : Binary64}

/-- One of two numbers in range, such as the smaller or the larger. -/
theorem within_of_eq_or {k : Nat} {x y z : Binary64} (h : z = x ∨ z = y) (hx : Within k x)
    (hy : Within k y) : Within k z := by
  rcases h with rfl | rfl
  · exact hx
  · exact hy

theorem PixelsInRange.beyond_divisor (h : PixelsInRange root F f T t) :
    Beyond 250 (T - F) ∧ Beyond 250 (F - T) := by
  obtain ⟨p, hF, hp⟩ := h.startScreen
  obtain ⟨q, hT, hq⟩ := h.finishScreen
  have hapart := h.apart p q hF hT
  have hswap := hapart.trans_eq (abs_sub_comm p q)
  exact ⟨beyond_sub hT hF hq hp (by omega) (by omega) hswap,
    beyond_sub hF hT hp hq (by omega) (by omega) hapart⟩

theorem isFinite_inUnit {k : Nat} {pixels : Binary64} (hroot : Beyond 250 root)
    (hpixels : Within k pixels) (hk : k + 250 ≤ 1023) (unit : LengthUnit) :
    (inUnit root unit pixels).isFinite = true := by
  cases unit with
  | px => exact hpixels.isFinite
  | rem => exact (hpixels.div hroot hk).isFinite

/-- **In range every number of a value is finite.** -/
theorem PixelsInRange.isFinite_unrounded (h : PixelsInRange root F f T t) (unit : LengthUnit) :
    ∀ x ∈ unrounded root unit F f T t, x.isFinite = true := by
  obtain ⟨hforward, hbackward⟩ := h.beyond_divisor
  have hlow := within_of_eq_or (min_eq_or f t) h.startSize h.finishSize
  have hhigh := within_of_eq_or (max_eq_or f t) h.startSize h.finishSize
  have hslope : (slopeOf F f T t).isFinite = true := by
    have hhundred : Within 7 (ofNat 100) := within_ofNat (by omega) (by decide)
    have hrise := hhundred.mul (h.finishSize.sub h.startSize (by omega)) (by omega)
    exact (hrise.div hforward (by omega)).isFinite
  have hintercept : Within 751 (interceptOf F f T t) := by
    have hleft := h.startScreen.mul h.finishSize (by omega)
    have hright := h.finishScreen.mul h.startSize (by omega)
    exact ((hleft.sub hright (by omega)).div hbackward (by omega)).mono (by omega)
  unfold unrounded
  simp only [List.forall_mem_cons]
  refine ⟨isFinite_inUnit h.root hlow (by omega) unit, hslope,
    isFinite_inUnit h.root hhigh (by omega) unit,
    isFinite_inUnit h.root hintercept.abs (by omega) unit, fun x hx => nomatch hx⟩

/-! ## §4. Spans of shorthands. -/

theorem isFinite_of_parse? {text : String} {length : Length Binary64}
    (h : Length.parse? text = some length) : length.value.isFinite = true := by
  obtain ⟨n, -, -, -, hfinite⟩ := (Length.parse?_eq_some_iff text length).1 h
  exact hfinite

theorem isFinite_of_resolve {screens : Screens} {screen : String} {width : Length Binary64}
    (h : screens.resolve screen = .ok width) : width.value.isFinite = true := by
  unfold Screens.resolve at h
  split at h
  · next literal hliteral =>
    split at h
    · exact nomatch h
    · obtain rfl := Except.ok.inj h
      exact isFinite_of_parse? hliteral
  · split at h
    · exact nomatch h
    · next text _ =>
      split at h
      · next named hnamed =>
        obtain rfl := Except.ok.inj h
        exact isFinite_of_parse? hnamed
      · exact nomatch h

/-- Both lengths of the anchor are finite. -/
def IsFiniteAnchor (anchor : Anchor Binary64) : Prop :=
  anchor.screen.value.isFinite = true ∧ anchor.size.value.isFinite = true

theorem isFiniteAnchor_of_resolve {screens : Screens} {input screen size : String}
    {anchor : Anchor Binary64} (h : Anchor.resolve screens input screen size = .ok anchor) :
    IsFiniteAnchor anchor := by
  unfold Anchor.resolve at h
  split at h
  · exact nomatch h
  · next width hwidth =>
    split at h
    · exact nomatch h
    · next length hlength =>
      obtain rfl := Except.ok.inj h
      exact ⟨isFinite_of_resolve hwidth, isFinite_of_parse? hlength⟩

theorem isFiniteAnchor_of_parse {screens : Screens} {side : Side} {input : String}
    {text : List Char} {anchor : Anchor Binary64}
    (h : Anchor.parse screens side input text = .ok anchor) : IsFiniteAnchor anchor := by
  unfold Anchor.parse at h
  split at h
  · split at h
    · exact nomatch h
    · exact isFiniteAnchor_of_resolve h
  · exact isFiniteAnchor_of_resolve h
  · exact nomatch h

/-- Every length of a shorthand that is read is finite. -/
theorem isFiniteAnchor_of_parse_span {screens : Screens} {input : String} {span : Span Binary64}
    (h : Span.parse screens input = .ok span) :
    IsFiniteAnchor span.start ∧ IsFiniteAnchor span.finish := by
  unfold Span.parse at h
  split at h
  · split at h
    · exact nomatch h
    · next first hfirst =>
      split at h
      · exact nomatch h
      · next second hsecond =>
        obtain rfl := Except.ok.inj h
        exact ⟨isFiniteAnchor_of_parse hfirst, isFiniteAnchor_of_parse hsecond⟩
  · exact nomatch h

/-! ## §5. The text of a span. -/

/-- What the slope is divided by; the intercept is divided by its opposite. -/
def divisor (root : Binary64) (span : Span Binary64) : Binary64 :=
  span.finish.screen.toPixels root - span.start.screen.toPixels root

/-- Both sizes are the same number. -/
def HasOneSize (span : Span Binary64) : Prop :=
  span.start.size.value.equal span.finish.size.value = true

/-- The numbers that are computed for a span. -/
def computed (root : Binary64) (span : Span Binary64) : List Binary64 :=
  unrounded root span.start.size.unit (span.start.screen.toPixels root)
    (span.start.size.toPixels root) (span.finish.screen.toPixels root)
    (span.finish.size.toPixels root)

/-- The pixels of a span are in range. -/
def InRange (root : Binary64) (span : Span Binary64) : Prop :=
  PixelsInRange root (span.start.screen.toPixels root) (span.start.size.toPixels root)
    (span.finish.screen.toPixels root) (span.finish.size.toPixels root)

theorem exists_root {root : Binary64} (h : Config.isRootSize root = true) :
    ∃ r, root.toRat? = some r ∧ 0 < r := by
  unfold Config.isRootSize at h
  rw [Bool.and_eq_true] at h
  obtain ⟨hfinite, hpositive⟩ := h
  obtain ⟨r, hr⟩ := isFinite_iff.1 hfinite
  exact ⟨r, hr, (lt_iff toRat?_zero hr).1 hpositive⟩

/-- **The divisor of pixel screens is never zero**, since those are the screens as
they were written. -/
theorem divisor_ne_zero {span : Span Binary64} (hfault : span.fault? = none)
    (hsizes : ¬ span.HasOneSize) (hunit : span.start.screen.unit = .px) (root : Binary64) :
    (span.divisor root).toRat? ≠ some 0 := by
  obtain ⟨-, -, hsame, -, hscreens⟩ := (fault?_eq_none_iff span).1 hfault
  have hpixels : span.divisor root = span.finish.screen.value - span.start.screen.value := by
    unfold divisor Length.toPixels
    rw [← hsame, hunit]
  -- equal screens would have been a fault, where sizes differ
  have hdiffer : span.start.screen.value.equal span.finish.screen.value = false :=
    hscreens (Bool.eq_false_iff.2 hsizes)
  rw [equal_comm] at hdiffer
  rw [hpixels]
  exact toRat?_sub_ne_zero hdiffer

/-- A text is that of a value, and then there is no fault. -/
theorem css_eq_ok {span : Span Binary64} {root : Binary64} {text : String}
    (h : span.css root = .ok text) :
    span.fault? = none ∧ ∃ value, span.value root = .ok value ∧ text = value.text cssText := by
  cases hvalue : span.value root with
  | error fault =>
    unfold css at h
    rw [hvalue] at h
    exact nomatch h
  | ok value =>
    rw [css_of_value hvalue] at h
    exact ⟨fault?_eq_none_of_value hvalue, value, rfl, (Except.ok.inj h).symm⟩

/-- The value of a span without a fault. -/
theorem value_cases {span : Span Binary64} {root : Binary64} {value : FluidValue Binary64}
    (h : span.value root = .ok value) :
    (span.HasOneSize ∧ value = .constant span.start.size) ∨
      (¬ span.HasOneSize ∧ value = interpolate root span.start.size.unit
        (span.start.screen.toPixels root) (span.start.size.toPixels root)
        (span.finish.screen.toPixels root) (span.finish.size.toPixels root)) := by
  have hfault := fault?_eq_none_of_value h
  by_cases hsize : span.HasOneSize
  · rw [value_of_oneSize hfault hsize] at h
    exact .inl ⟨hsize, (Except.ok.inj h).symm⟩
  · rw [value_of_twoSizes hfault (Bool.eq_false_iff.2 hsize)] at h
    exact .inr ⟨hsize, (Except.ok.inj h).symm⟩

/-- The numbers of a value are finite exactly if those that it is computed from are,
or if there was nothing to compute. -/
theorem numbers_iff {screens : Screens} {shorthand : String} {root : Binary64}
    {span : Span Binary64} {value : FluidValue Binary64}
    (hroot : Config.isRootSize root = true) (hparse : Span.parse screens shorthand = .ok span)
    (hvalue : span.value root = .ok value) :
    (∀ x ∈ value.numbers, x.isFinite = true) ↔
      span.HasOneSize ∨ ∀ x ∈ span.computed root, x.isFinite = true := by
  rcases value_cases hvalue with ⟨hsize, rfl⟩ | ⟨hsize, rfl⟩
  · have hfinite := (isFiniteAnchor_of_parse_span hparse).1.2
    constructor
    · intro _
      exact .inl hsize
    · intro _
      exact List.forall_mem_singleton.2 hfinite
  · obtain ⟨r, hr, hpos⟩ := exists_root hroot
    rw [numbers_interpolate_iff hr hpos, or_iff_right hsize]
    exact Iff.rfl

/-- **When the text of a span has only finite numbers.**  The text is clean exactly
if all numbers in it are finite, and that is so exactly if there is one size or all
numbers that are computed from the pixels are finite, in particular if the pixels
are in range.  The root is never zero, and the divisor is zero exactly if both
screens have the same finite number of pixels, which screens in pixels never have
where sizes differ. -/
theorem css_isClean_iff {screens : Screens} {shorthand text : String} {root : Binary64}
    {span : Span Binary64} (hroot : Config.isRootSize root = true)
    (hparse : Span.parse screens shorthand = .ok span) (hcss : span.css root = .ok text) :
    (∃ value, span.value root = .ok value ∧ text = value.text cssText ∧
      (IsClean text ↔ ∀ x ∈ value.numbers, x.isFinite = true)) ∧
    (IsClean text ↔ span.HasOneSize ∨ ∀ x ∈ span.computed root, x.isFinite = true) ∧
    (span.InRange root → IsClean text ∧ (span.divisor root).toRat? ≠ some 0) ∧
    (∃ r, root.toRat? = some r ∧ 0 < r) ∧
    ((span.divisor root).toRat? = some 0 ↔
      ∃ p, (span.finish.screen.toPixels root).toRat? = some p ∧
        (span.start.screen.toPixels root).toRat? = some p) ∧
    (¬ span.HasOneSize → span.start.screen.unit = .px →
      (span.divisor root).toRat? ≠ some 0) := by
  obtain ⟨hfault, value, hvalue, rfl⟩ := css_eq_ok hcss
  have hnumbers := FluidValue.isClean_text_iff.trans (numbers_iff hroot hparse hvalue)
  refine ⟨⟨value, hvalue, rfl, FluidValue.isClean_text_iff⟩, hnumbers, ?_, exists_root hroot,
    toRat?_sub_eq_zero_iff, ?_⟩
  · intro hrange
    have hfinite := hrange.isFinite_unrounded span.start.size.unit
    exact ⟨hnumbers.2 (.inr hfinite), hrange.beyond_divisor.1.ne_zero⟩
  · intro hsizes hunit
    exact divisor_ne_zero hfault hsizes hunit root

/-- Four lengths in pixels. -/
def ofPixels (F f T t : Nat) : Span Binary64 :=
  ⟨⟨⟨ofNat F, .px⟩, ⟨ofNat f, .px⟩⟩, ⟨⟨ofNat T, .px⟩, ⟨ofNat t, .px⟩⟩⟩

theorem css_isClean_iff_768_1280 :
    Config.isRootSize (ofNat 16) = true ∧
      Span.parse .empty "768px 32px, 1280px 64px" = .ok (ofPixels 768 32 1280 64) ∧
      (ofPixels 768 32 1280 64).css (ofNat 16) = .ok "clamp(32px, 6.25vw - 16px, 64px)" ∧
      IsClean "clamp(32px, 6.25vw - 16px, 64px)" := by
  have hroot : Config.isRootSize (ofNat 16) = true := by decide +kernel
  have hparse : Span.parse .empty "768px 32px, 1280px 64px" = .ok (ofPixels 768 32 1280 64) := by
    decide +kernel
  have hcss : (ofPixels 768 32 1280 64).css (ofNat 16) = .ok "clamp(32px, 6.25vw - 16px, 64px)" := by
    decide +kernel
  have hsmall : ∀ n ≤ 2048, Within 250 (ofNat n) := by
    intro n hn
    have hle : n ≤ 2 ^ 11 := hn
    exact (within_ofNat (by omega) hle).mono (by omega)
  have hapart : ∀ p q, (ofNat 768).toRat? = some p → (ofNat 1280).toRat? = some q →
      (2 ^ 250)⁻¹ ≤ |p - q| := by
    intro p q hp hq
    have hF : (ofNat 768).toRat? = some 768 := by decide +kernel
    have hT : (ofNat 1280).toRat? = some 1280 := by decide +kernel
    obtain rfl := Option.some.inj (hF.symm.trans hp)
    obtain rfl := Option.some.inj (hT.symm.trans hq)
    norm_num
  have hsixteen : Beyond 0 (ofNat 16) := beyond_ofNat (k := 4) (by omega) (by decide) (by decide)
  have hpixels : PixelsInRange (ofNat 16) (ofNat 768) (ofNat 32) (ofNat 1280) (ofNat 64) :=
    { root := hsixteen.mono (by omega)
      startScreen := hsmall 768 (by decide)
      startSize := hsmall 32 (by decide)
      finishScreen := hsmall 1280 (by decide)
      finishSize := hsmall 64 (by decide)
      apart := hapart }
  have hrange : (ofPixels 768 32 1280 64).InRange (ofNat 16) := by
    simp only [InRange, ofPixels, Length.toPixels]
    exact hpixels
  exact ⟨hroot, hparse, hcss, ((css_isClean_iff hroot hparse hcss).2.2.1 hrange).1⟩

/-- A root that is finite and positive, and so large that products of pixels are
not finite. -/
theorem evaluate_not_isClean :
    Config.isRootSize (ofWord 0x7fe1ccf385ebc8a0) = true ∧
      Screens.empty.evaluate (ofWord 0x7fe1ccf385ebc8a0) "1rem 1px, 2rem 2px" =
        .ok "clamp(1px, 0vw - NaNpx, 2px)" := by
  constructor
  · decide +kernel
  · decide +kernel

end Span

end FluidClamp
