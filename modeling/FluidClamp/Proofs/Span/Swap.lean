/-
  FluidClamp.Proofs.Span.Swap
  ───────────────────────────
  **WHICH ANCHOR IS WRITTEN FIRST DOES NOT MATTER.**

  With its anchors exchanged a span has the same text, character by character, in
  binary64 arithmetic as it is.  Slope and intercept are quotients of differences,
  and numerator and divisor turn their signs together:

      100 · (f − t) / (F − T)          =  100 · (t − f) / (T − F)
      (T · f − F · t) / (T − F)        =  (F · t − T · f) / (F − T)

  What may differ is the sign of a zero, and that is not written.  All of this
  needs a divisor that is not zero, so the screens must not come to the same
  number of pixels (`KeepsScreensApart`).  Of the faults only a screen that is not
  positive is reported with its side.
-/
import FluidClamp.Proofs.Number.Signs
import FluidClamp.Proofs.Span.Finite

namespace FluidClamp

open Binary64

/-! ## §1. Texts of alike numbers. -/

/-- Alike numbers in a value leave its text as it is. -/
theorem FluidValue.text_clamp_congr {low low' slope slope' high high' : Binary64}
    (hlow : Alike low low') (hslope : Alike slope slope') (hhigh : Alike high high')
    (offset : Option (Sign × Binary64)) (unit : LengthUnit) :
    (clamp low slope offset high unit).text cssText =
      (clamp low' slope' offset high' unit).text cssText := by
  unfold text
  dsimp only
  rw [hlow.cssText_eq, hslope.cssText_eq, hhigh.cssText_eq]

namespace Span

theorem alike_fromPixels (root : Binary64) (unit : LengthUnit) {x y : Binary64} (h : Alike x y) :
    Alike (fromPixels root unit x) (fromPixels root unit y) := by
  cases unit with
  | px => exact h.toPlaces lengthPlaces
  | rem => exact (h.div root).toPlaces lengthPlaces

/-! ## §2. The interpolation with its ends exchanged. -/

/-- The offset that is written for an intercept. -/
def writtenOffset (root : Binary64) (unit : LengthUnit) (intercept : Binary64) :
    Option (Sign × Binary64) :=
  if intercept.equal (ofNat 0) then none
  else some (if (ofNat 0).lt intercept then Sign.plus else Sign.minus,
    fromPixels root unit intercept.abs)

/-- Alike intercepts are written alike, and a zero of either sign not at all. -/
theorem writtenOffset_congr (root : Binary64) (unit : LengthUnit) {x y : Binary64}
    (h : Alike x y) : writtenOffset root unit x = writtenOffset root unit y := by
  have hequal : x.equal (ofNat 0) = y.equal (ofNat 0) := by
    unfold equal compares
    rw [h]
  have hlt : (ofNat 0).lt x = (ofNat 0).lt y := by
    unfold lt compares
    rw [h]
  unfold writtenOffset
  rw [hequal, hlt, h.abs_eq]

variable {F T : Binary64} (h : F.equal T = false)

include h

theorem alike_slopeOf_swap (f t : Binary64) :
    Alike (slopeOf T t F f) (slopeOf F f T t) := by
  rw [equal_comm] at h
  exact alike_mul_sub_div_sub (ofNat 100) t f (toRat?_sub_ne_zero h)

theorem alike_interceptOf_swap (f t : Binary64) :
    Alike (interceptOf T t F f) (interceptOf F f T t) :=
  alike_sub_div_sub (F * t) (T * f) (toRat?_sub_ne_zero h)

/-- **An interpolation reads the same from both ends.** -/
theorem text_interpolate_swap (root : Binary64) (unit : LengthUnit) (f t : Binary64) :
    (interpolate root unit T t F f).text cssText =
      (interpolate root unit F f T t).text cssText := by
  have hoffset := writtenOffset_congr root unit (alike_interceptOf_swap h f t)
  unfold writtenOffset at hoffset
  rw [interpolate_eq_clamp, interpolate_eq_clamp, hoffset]
  exact FluidValue.text_clamp_congr (alike_fromPixels root unit (alike_min_comm t f))
    ((alike_slopeOf_swap h f t).toPlaces slopePlaces)
    (alike_fromPixels root unit (alike_max_comm t f)) _ _

end Span

/-! ## §3. Faults. -/

/-- The fault is a screen that is not positive. -/
def SpanError.IsScreenNotPositive {α : Type} (error : SpanError α) : Prop :=
  ∃ side screen, error = .screenNotPositive side screen

namespace Span

/-- **Exchanging the anchors keeps the fault**, unless it is that of one screen. -/
theorem fault?_swap (span : Span Binary64) :
    span.swap.fault? = span.fault? ∨
      ∃ e, e.IsScreenNotPositive ∧ span.fault? = some e ∧
        ∃ e', e'.IsScreenNotPositive ∧ span.swap.fault? = some e' := by
  by_cases hstart : Scalar.le span.start.screen.value (Scalar.ofNat 0) = true
  · right
    refine ⟨_, ⟨.start, span.start.screen, rfl⟩, if_pos hstart, ?_⟩
    by_cases hfinish : Scalar.le span.finish.screen.value (Scalar.ofNat 0) = true
    · exact ⟨_, ⟨.start, span.finish.screen, rfl⟩, if_pos hfinish⟩
    · exact ⟨_, ⟨.finish, span.start.screen, rfl⟩, (if_neg hfinish).trans (if_pos hstart)⟩
  · by_cases hfinish : Scalar.le span.finish.screen.value (Scalar.ofNat 0) = true
    · right
      exact ⟨_, ⟨.finish, span.finish.screen, rfl⟩, (if_neg hstart).trans (if_pos hfinish),
        _, ⟨.start, span.finish.screen, rfl⟩, if_pos hfinish⟩
    · -- what is left to check does not distinguish the anchors
      left
      have hunits : ∀ a b : LengthUnit, (a ≠ b) = (b ≠ a) := fun a b => propext ne_comm
      have hequal : ∀ x y : Binary64, Scalar.equal x y = Scalar.equal y x := equal_comm
      unfold fault? swap
      simp only [hstart, hfinish, Bool.false_eq_true, if_false]
      rw [hequal span.finish.size.value, hequal span.finish.screen.value]
      simp only [hunits span.finish.screen.unit, hunits span.finish.size.unit]

/-! ## §4. The text of the span. -/

/-- The screens differ in pixels if they differ as they are written. -/
def KeepsScreensApart (root : Binary64) (span : Span Binary64) : Prop :=
  span.start.screen.value.equal span.finish.screen.value = false →
    (span.start.screen.toPixels root).equal (span.finish.screen.toPixels root) = false

instance (root : Binary64) (span : Span Binary64) : Decidable (span.KeepsScreensApart root) :=
  inferInstanceAs (Decidable (_ → _))

variable {root : Binary64} {span : Span Binary64}

theorem hasOneSize_swap : span.swap.HasOneSize ↔ span.HasOneSize := by
  unfold HasOneSize
  rw [equal_comm]
  rfl

/-- Two equal sizes of one unit have one text. -/
theorem text_constant_swap (hunit : span.start.size.unit = span.finish.size.unit)
    (hsize : span.HasOneSize) :
    (FluidValue.constant span.finish.size).text cssText =
      (FluidValue.constant span.start.size).text cssText := by
  unfold FluidValue.text
  dsimp only
  rw [(alike_of_equal hsize).cssText_eq, hunit]

/-- **The outcome of the exchanged span** is that of the span, or both have a screen
that is not positive. -/
theorem css_swap (h : span.KeepsScreensApart root) :
    span.swap.css root = span.css root ∨
      ∃ e, e.IsScreenNotPositive ∧ span.css root = .error e ∧
        ∃ e', e'.IsScreenNotPositive ∧ span.swap.css root = .error e' := by
  rcases fault?_swap span with hsame | ⟨e, he, hfault, e', he', hfault'⟩
  · left
    cases hfault : span.fault? with
    | some fault =>
      rw [hfault] at hsame
      rw [css_of_fault hfault, css_of_fault hsame]
    | none =>
      rw [hfault] at hsame
      obtain ⟨-, -, -, hunit, hscreens⟩ := (fault?_eq_none_iff span).1 hfault
      by_cases hsize : span.HasOneSize
      · rw [css_of_value (value_of_oneSize hfault hsize),
          css_of_value (value_of_oneSize hsame (hasOneSize_swap.2 hsize))]
        exact congrArg Except.ok (text_constant_swap hunit hsize)
      · -- two sizes need two screens, and these are two in pixels
        have hdiffer := Bool.eq_false_iff.2 hsize
        have hpixels := h (hscreens hdiffer)
        have hdiffer' := Bool.eq_false_iff.2 (mt hasOneSize_swap.1 hsize)
        rw [css_of_value (value_of_twoSizes hfault hdiffer),
          css_of_value (value_of_twoSizes hsame hdiffer')]
        show Except.ok ((interpolate root span.finish.size.unit _ _ _ _).text cssText) = _
        rw [← hunit]
        exact congrArg Except.ok (text_interpolate_swap hpixels root _ _ _)
  · exact .inr ⟨e, he, css_of_fault hfault, e', he', css_of_fault hfault'⟩

/-- **A span reads the same with its anchors exchanged**, whatever numbers it has,
if its screens stay apart in pixels.  It has the same text, or the same fault of
units or of equal screens; and a screen that is not positive is a fault either way,
reported with the side that it is then on. -/
theorem css_swap_iff (root : Binary64) (span : Span Binary64) (h : span.KeepsScreensApart root) :
    (∀ text, span.swap.css root = .ok text ↔ span.css root = .ok text) ∧
    (∀ error, error = .screenUnitsDiffer ∨ error = .sizeUnitsDiffer ∨ error = .screensEqual →
      (span.swap.css root = .error error ↔ span.css root = .error error)) ∧
    ((∃ error, error.IsScreenNotPositive ∧ span.swap.css root = .error error) ↔
      ∃ error, error.IsScreenNotPositive ∧ span.css root = .error error) := by
  rcases css_swap h with hsame | ⟨e, he, hcss, e', he', hcss'⟩
  · rw [hsame]
    exact ⟨fun _ => Iff.rfl, fun _ _ => Iff.rfl, Iff.rfl⟩
  · rw [hcss, hcss']
    refine ⟨fun text => ⟨fun hok => (nomatch hok), fun hok => (nomatch hok)⟩, ?_, ?_⟩
    · -- none of these faults is that of one screen
      intro error herror
      have hnot : ¬ error.IsScreenNotPositive := by
        rintro ⟨side, screen, rfl⟩
        rcases herror with herror | herror | herror
        · exact nomatch herror
        · exact nomatch herror
        · exact nomatch herror
      constructor
      · intro hgiven
        exact absurd (Except.error.inj hgiven ▸ he') hnot
      · intro hgiven
        exact absurd (Except.error.inj hgiven ▸ he) hnot
    · exact ⟨fun _ => ⟨e, he, rfl⟩, fun _ => ⟨e', he', rfl⟩⟩

/-- The larger screen first, and a negative size on the smaller one. -/
theorem css_swap_iff_negative :
    let span : Span Binary64 :=
      ⟨⟨⟨ofNat 80, .rem⟩, ⟨ofNat 1, .rem⟩⟩, ⟨⟨ofNat 48, .rem⟩, ⟨-ofNat 2, .rem⟩⟩⟩
    span.KeepsScreensApart (ofNat 16) ∧
      span.css (ofNat 16) = .ok "clamp(-2rem, 9.375vw - 6.5rem, 1rem)" ∧
      span.swap.css (ofNat 16) = .ok "clamp(-2rem, 9.375vw - 6.5rem, 1rem)" := by
  intro span
  have hkeeps : span.KeepsScreensApart (ofNat 16) := by decide +kernel
  have hcss : span.css (ofNat 16) = .ok "clamp(-2rem, 9.375vw - 6.5rem, 1rem)" := by
    decide +kernel
  exact ⟨hkeeps, hcss, ((css_swap_iff (ofNat 16) span hkeeps).1 _).2 hcss⟩

-- screens that come to one pixel width: the divisor is zero in either order
example :
    let span : Span Binary64 :=
      ⟨⟨⟨ofDecimal false ⟨11, -1⟩, .rem⟩, ⟨ofNat 1, .px⟩⟩,
        ⟨⟨ofDecimal false ⟨12, -1⟩, .rem⟩, ⟨ofNat 2, .px⟩⟩⟩
    span.css (ofWord 1) = .ok "clamp(1px, infvw + infpx, 2px)" ∧
      span.swap.css (ofWord 1) = .ok "clamp(1px, -infvw - infpx, 2px)" := by
  decide +kernel

end Span

end FluidClamp
