/-
  FluidClamp.Span
  ───────────────
  **SPANS, AND THE CSS VALUE OF A SPAN.**

  An anchor says: on a screen this wide, the size is this.  A span is two
  anchors; between their screens the size grows linearly with the viewport, and
  outside it stays at the nearer anchor's size.  `Span.value` gives the CSS value
  that says so, for sizes f and t on screens F and T:

      clamp(min f t, slope·vw + intercept, max f t)
      slope      =  100 · (t − f) / (T − F)
      intercept  =  (F·t − T·f) / (F − T)

  Equal sizes need no screens: their value is the size itself.
-/
import FluidClamp.Length

namespace FluidClamp

/-! ## §1. Anchors and spans. -/

/-- A size, and the screen width at which it holds. -/
structure Anchor (α : Type) where
  screen : Length α
  size : Length α
  deriving Repr, DecidableEq

/-- The two anchors between which a size is fluid. -/
structure Span (α : Type) where
  start : Anchor α
  finish : Anchor α
  deriving Repr, DecidableEq

/-- One of the two anchors. -/
inductive Side where
  | start
  | finish
  deriving Repr, DecidableEq

/-- How messages call the side. -/
def Side.text : Side → String
  | .start => "from"
  | .finish => "to"

/-- The span with its anchors exchanged. -/
def Span.swap {α : Type} (span : Span α) : Span α := ⟨span.finish, span.start⟩

/-! ## §2. What can be wrong with a span. -/

/-- Why a span has no value. -/
inductive SpanError (α : Type) where
  | screenNotPositive (side : Side) (screen : Length α)
  | screenUnitsDiffer
  | sizeUnitsDiffer
  | screensEqual
  deriving Repr, DecidableEq

/-- The message of an error. -/
def SpanError.message : SpanError Binary64 → String
  | .screenNotPositive side screen =>
      "'" ++ side.text ++ ".screen' must be larger than 0, but got '" ++ screen.text ++ "'."
  | .screenUnitsDiffer => "The both 'screen's must have same unit."
  | .sizeUnitsDiffer => "The both 'size's must have same unit."
  | .screensEqual => "The 'value's for both 'screen's must be different."

/-! ## §3. Fluid values. -/

/-- A CSS value that follows the viewport width. -/
inductive FluidValue (α : Type) where
  /-- One size on every screen, as it was given. -/
  | constant (size : Length α)
  /-- `clamp(low, slope vw ± offset, high)`, lengths in `unit`. -/
  | clamp (low : α) (slope : α) (offset : Option (Sign × α)) (high : α) (unit : LengthUnit)
  deriving Repr, DecidableEq

/-- **The text of a fluid value**, with numbers written by `number`. -/
def FluidValue.text {α : Type} (number : α → String) : FluidValue α → String
  | .constant size => number size.value ++ size.unit.text
  | .clamp low slope offset high unit =>
      "clamp(" ++ number low ++ unit.text ++ ", " ++ number slope ++ "vw" ++
        offsetText unit offset ++ ", " ++ number high ++ unit.text ++ ")"
where
  offsetText (unit : LengthUnit) : Option (Sign × α) → String
    | none => ""
    | some (sign, offset) =>
        " " ++ String.singleton sign.toChar ++ " " ++ number offset ++ unit.text

/-! ## §4. The value of a span. -/

/-- Decimal places of the lengths in a value. -/
def lengthPlaces : Nat := 3

/-- Decimal places of the slope in a value. -/
def slopePlaces : Nat := 5

/-- The root font size that holds where none is given. -/
def defaultRootSize : Nat := 16

namespace Span

variable {α : Type} [Scalar α]

/-- A number of pixels in the given unit, rounded for output. -/
def fromPixels (root : α) (unit : LengthUnit) (pixels : α) : α :=
  Scalar.toPlaces lengthPlaces <|
    match unit with
    | .px => pixels
    | .rem => pixels / root

/-- The first fault of a span, where sizes are not equal or its screens are. -/
def fault? (span : Span α) : Option (SpanError α) :=
  let zero : α := Scalar.ofNat 0
  if Scalar.le span.start.screen.value zero then
    some (.screenNotPositive .start span.start.screen)
  else if Scalar.le span.finish.screen.value zero then
    some (.screenNotPositive .finish span.finish.screen)
  else if span.start.screen.unit ≠ span.finish.screen.unit then some .screenUnitsDiffer
  else if span.start.size.unit ≠ span.finish.size.unit then some .sizeUnitsDiffer
  else if !Scalar.equal span.start.size.value span.finish.size.value
      && Scalar.equal span.start.screen.value span.finish.screen.value then some .screensEqual
  else none

/-- The interpolation between sizes `f` and `t` on screens `F` and `T`, in
pixels.  The offset is written for every nonzero intercept, also for one that
rounds to zero. -/
def interpolate (root : α) (unit : LengthUnit) (F f T t : α) : FluidValue α :=
  let slope := Scalar.ofNat 100 * (t - f) / (T - F)
  let intercept := (F * t - T * f) / (F - T)
  let offset :=
    if Scalar.equal intercept (Scalar.ofNat 0) then none
    else
      let sign := if Scalar.lt (Scalar.ofNat 0) intercept then Sign.plus else Sign.minus
      some (sign, fromPixels root unit (Scalar.abs intercept))
  .clamp (fromPixels root unit (Scalar.min f t)) (Scalar.toPlaces slopePlaces slope) offset
    (fromPixels root unit (Scalar.max f t)) unit

/-- **The value of a span**, where `root` pixels make one `rem`. -/
def value (root : α) (span : Span α) : Except (SpanError α) (FluidValue α) :=
  match span.fault? with
  | some fault => .error fault
  | none =>
      if Scalar.equal span.start.size.value span.finish.size.value then
        .ok (.constant span.start.size)
      else
        .ok (interpolate root span.start.size.unit
          (span.start.screen.toPixels root) (span.start.size.toPixels root)
          (span.finish.screen.toPixels root) (span.finish.size.toPixels root))

/-- **Without a fault** the screens are positive, the units agree, and the screens
differ unless the sizes are equal. -/
theorem fault?_eq_none_iff (span : Span α) :
    span.fault? = none ↔
      Scalar.le span.start.screen.value (Scalar.ofNat 0) = false ∧
      Scalar.le span.finish.screen.value (Scalar.ofNat 0) = false ∧
      span.start.screen.unit = span.finish.screen.unit ∧
      span.start.size.unit = span.finish.size.unit ∧
      (Scalar.equal span.start.size.value span.finish.size.value = false →
        Scalar.equal span.start.screen.value span.finish.screen.value = false) := by
  unfold fault?
  dsimp only
  split
  · next h => simp [h]
  · next hstart =>
    split
    · next h => simp [h]
    · next hfinish =>
      split
      · next h => simp [h]
      · next hscreens =>
        split
        · next h => simp [h]
        · next hsizes =>
          simp only [Bool.not_eq_true] at hstart hfinish
          simp only [ne_eq, Classical.not_not] at hscreens hsizes
          simp [hstart, hfinish, hscreens, hsizes]

theorem value_of_fault {root : α} {span : Span α} {fault : SpanError α}
    (h : span.fault? = some fault) : span.value root = .error fault := by
  unfold value
  rw [h]

/-- A span with a value has no fault. -/
theorem fault?_eq_none_of_value {root : α} {span : Span α} {value : FluidValue α}
    (h : span.value root = .ok value) : span.fault? = none := by
  cases hfault : span.fault? with
  | none => rfl
  | some fault =>
    rw [value_of_fault hfault] at h
    exact nomatch h

theorem value_of_oneSize {root : α} {span : Span α} (h : span.fault? = none)
    (hsize : Scalar.equal span.start.size.value span.finish.size.value = true) :
    span.value root = .ok (.constant span.start.size) := by
  unfold value
  rw [h]
  exact if_pos hsize

theorem value_of_twoSizes {root : α} {span : Span α} (h : span.fault? = none)
    (hsize : Scalar.equal span.start.size.value span.finish.size.value = false) :
    span.value root = .ok (interpolate root span.start.size.unit
      (span.start.screen.toPixels root) (span.start.size.toPixels root)
      (span.finish.screen.toPixels root) (span.finish.size.toPixels root)) := by
  unfold value
  rw [h]
  exact if_neg (Bool.eq_false_iff.1 hsize)

end Span

/-- The CSS text of a span. -/
def Span.css (root : Binary64) (span : Span Binary64) :
    Except (SpanError Binary64) String :=
  (span.value root).map (FluidValue.text Binary64.cssText)

theorem Span.css_of_value {root : Binary64} {span : Span Binary64} {value : FluidValue Binary64}
    (h : span.value root = .ok value) : span.css root = .ok (value.text Binary64.cssText) := by
  unfold css
  rw [h]
  rfl

theorem Span.css_of_fault {root : Binary64} {span : Span Binary64} {fault : SpanError Binary64}
    (h : span.fault? = some fault) : span.css root = .error fault := by
  unfold css
  rw [value_of_fault h]
  rfl

end FluidClamp
