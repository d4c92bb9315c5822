/-
  FluidClamp.Proofs.Length.RoundTrip
  ──────────────────────────────────
  **LENGTHS ARE WRITTEN AND READ BACK.**

  A length is written with the digits of its number and its unit.  In the middle of
  the numbers the digits are written out, and elsewhere with an exponent:

      0                              0           read back as zero
      10^-6 ≤ |x| < 10^21            digits      read back as the number
      any other finite number        exponent    refused

  where the number nearest to 10^-6 is the least one whose digits are written out.
  An exponent is no part of a length, yet it denotes the number all the same.  So
  the text of a finite length tells its number, up to the sign of zero, and its unit
  (`Length.text_eq_iff`).
-/
import FluidClamp.Proofs.Length.Reading
import FluidClamp.Proofs.Number.Written

namespace FluidClamp

namespace Binary64

/-! ## §1. The numbers whose digits are written out. -/

/-- The least magnitude that is written without an exponent. -/
def leastPlain : Binary64 := .ofDecimal false ⟨1, -6⟩

/-- The magnitude from which on there is an exponent again. -/
def firstScientific : Binary64 := .ofDecimal false ⟨1, 21⟩

/-- **Zero, and the numbers whose digits are written out.** -/
def InPlainRange (x : Binary64) : Prop :=
  x.equal .zero = true ∨ leastPlain.le x.abs = true ∧ x.abs.lt firstScientific = true

instance (x : Binary64) : Decidable x.InPlainRange := inferInstanceAs (Decidable (_ ∨ _))

/-- There is no number `10^-6`, but a nearest one. -/
theorem isNearest_leastPlain : IsNearest ((10 ^ 6)⁻¹) leastPlain := by
  have hvalue : (⟨1, -6⟩ : Decimal).toRat = (10 ^ 6)⁻¹ := by
    unfold Decimal.toRat
    norm_num
  have hsmall : (⟨1, -6⟩ : Decimal).toRat < overflow := by
    rw [← isFinite_ofDecimal_iff false]
    decide +kernel
  have hnearest := isNearest_ofDecimal false hsmall
  rw [hvalue] at hnearest
  exact hnearest

/-- There is a number `10^21`. -/
theorem toRat?_firstScientific : firstScientific.toRat? = some (10 ^ 21) := by
  have hten : firstScientific = ofNat (Nat.pow 10 21) := by decide +kernel
  rw [hten]
  exact toRat?_ofNat_ten_pow (by decide)

/-- **The range in terms of values.** -/
theorem inPlainRange_iff {x : Binary64} {q least : Rat} (h : x.toRat? = some q)
    (hleast : leastPlain.toRat? = some least) :
    x.InPlainRange ↔ q = 0 ∨ least ≤ |q| ∧ |q| < 10 ^ 21 := by
  unfold InPlainRange
  rw [equal_iff h toRat?_zero, le_iff hleast (toRat?_abs h),
    lt_iff (toRat?_abs h) toRat?_firstScientific]

/-- Numbers in the range are the ones without an exponent. -/
theorem usesExponent_eq_false_iff (negative : Bool) {rank : Fin rankCount} (h : rank.val ≠ 0) :
    NumberStyle.css.usesExponent (finite false rank) = false ↔
      (finite negative rank).InPlainRange := by
  obtain ⟨least, hleast, -⟩ := isNearest_leastPlain.nearest
  have hmagnitude := toRat?_finite_false rank
  have hne : finiteValue negative rank ≠ 0 := by
    have hpos : 0 < magnitude rank := by
      rw [← magnitude_zero]
      exact magnitude_strictMono (Nat.pos_of_ne_zero h)
    rw [← abs_pos, abs_finiteValue]
    exact hpos
  have huses : NumberStyle.css.usesExponent (finite false rank) =
      ((finite false rank).lt leastPlain || firstScientific.le (finite false rank)) := by
    unfold NumberStyle.css leastPlain firstScientific
    dsimp only
  rw [huses, Bool.or_eq_false_iff, ← Bool.not_eq_true, ← Bool.not_eq_true,
    lt_iff hmagnitude hleast, le_iff toRat?_firstScientific hmagnitude, not_lt, not_le,
    inPlainRange_iff rfl hleast, or_iff_right hne, abs_finiteValue]

/-! ## §2. The texts of numbers. -/

theorem equal_iff_alike {x y : Binary64} (hx : x.isFinite = true) :
    x.equal y = true ↔ Alike x y := by
  refine ⟨alike_of_equal, ?_⟩
  intro halike
  have hnumber : x ≠ nan := by
    rintro rfl
    exact nomatch hx
  obtain ⟨i, hi⟩ := exists_place? hnumber
  unfold Alike at halike
  rw [hi] at halike
  unfold equal compares
  rw [hi, ← halike]
  exact decide_eq_true rfl

/-- The text of a number that is not zero. -/
theorem toList_cssText (negative : Bool) {rank : Fin rankCount} (h : rank.val ≠ 0) :
    (finite negative rank).cssText.toList =
      Numeral.signText (if negative then some .minus else none) ++
        if NumberStyle.css.usesExponent (finite false rank) then
          (finite false rank).shortest.scientific
        else (finite false rank).shortest.positional := by
  have hsign : NumberStyle.write.sign negative =
      Numeral.signText (if negative then some .minus else none) := by
    cases negative <;> rfl
  unfold cssText
  rw [String.toList_ofList]
  unfold NumberStyle.write
  dsimp only
  rw [if_neg h, hsign]

/-- The sign of a number is the one before its digits. -/
theorem isNegative_of_sign {n : Numeral} {negative : Bool}
    (h : n.sign = if negative then some .minus else none) : n.isNegative = negative := by
  unfold Numeral.isNegative
  rw [h]
  cases negative <;> rfl

/-- What comes back of a number: zero without its sign. -/
def withoutZeroSign (x : Binary64) : Binary64 := if x.equal .zero then .zero else x

theorem alike_withoutZeroSign (x : Binary64) : Alike x.withoutZeroSign x := by
  unfold withoutZeroSign
  split
  · next hzero => exact (alike_of_equal hzero).symm
  · rfl

/-- A number is equal to zero if its rank is. -/
theorem equal_zero_iff (negative : Bool) (rank : Fin rankCount) :
    (finite negative rank).equal zero = true ↔ rank.val = 0 := by
  rw [equal_iff rfl toRat?_zero, ← abs_eq_zero, abs_finiteValue, ← magnitude_zero]
  exact magnitude_strictMono.injective.eq_iff

/-- **Digits that are written out** denote the number, up to the sign of zero. -/
theorem exists_isPlain_cssText {x : Binary64} (hx : x.isFinite = true) (h : x.InPlainRange) :
    ∃ n : Numeral, n.IsPlain ∧ x.cssText.toList = n.plainText ∧
      n.toBinary64 = x.withoutZeroSign := by
  obtain ⟨q, hq⟩ := exists_toRat?_of_isFinite hx
  obtain ⟨negative, rank, rfl, -⟩ := toRat?_eq_some_iff.1 hq
  have hequal := equal_zero_iff negative rank
  unfold withoutZeroSign
  by_cases hzero : rank.val = 0
  · have htext := (alike_of_equal (hequal.2 hzero)).cssText_eq
    refine ⟨⟨none, ['0'], none, none⟩, ⟨rfl, List.forall_mem_singleton.2 rfl, nofun, nofun⟩, ?_, ?_⟩
    · rw [htext]
      rfl
    · rw [if_pos (hequal.2 hzero)]
      decide +kernel
  · obtain ⟨n, hplain, hsign, htext, hvalue⟩ :=
      (finite false rank).shortest.exists_isPlain_positional (if negative then some .minus else none)
    have hread := ofDecimal_shortest negative rank
    have hdigits := (usesExponent_eq_false_iff negative hzero).2 h
    refine ⟨n, hplain, ?_, ?_⟩
    · rw [toList_cssText negative hzero, hdigits, if_neg Bool.false_ne_true, htext]
    · rw [if_neg (mt hequal.1 hzero)]
      unfold Numeral.toBinary64
      rw [isNegative_of_sign hsign, ofDecimal_congr hvalue.symm (hread ▸ rfl), hread]

/-- **Digits with an exponent** denote the number. -/
theorem exists_isScientific_cssText {x : Binary64} (hx : x.isFinite = true)
    (h : ¬ x.InPlainRange) :
    ∃ n : Numeral, n.IsScientific ∧ x.cssText.toList = n.writtenText ∧ n.toBinary64 = x := by
  obtain ⟨q, hq⟩ := exists_toRat?_of_isFinite hx
  obtain ⟨negative, rank, rfl, -⟩ := toRat?_eq_some_iff.1 hq
  have hzero : rank.val ≠ 0 := fun hzero => h (.inl ((equal_zero_iff negative rank).2 hzero))
  obtain ⟨n, hscientific, hsign, htext, hdecimal⟩ :=
    (finite false rank).shortest.exists_isScientific (if negative then some .minus else none)
  have huses : NumberStyle.css.usesExponent (finite false rank) = true := by
    rw [← Bool.not_eq_false, usesExponent_eq_false_iff negative hzero]
    exact h
  refine ⟨n, hscientific, ?_, ?_⟩
  · rw [toList_cssText negative hzero, huses, if_pos rfl, htext]
  · unfold Numeral.toBinary64
    rw [isNegative_of_sign hsign, hdecimal, ofDecimal_shortest]

end Binary64

/-! ## §3. The texts of lengths. -/

namespace Length

open Binary64

theorem toList_text (x : Binary64) (unit : LengthUnit) :
    (text ⟨x, unit⟩).toList = x.cssText.toList ++ unit.text.toList := by
  unfold text
  rw [String.toList_append]

/-- Where the digits are written out, the text is read back. -/
theorem parse?_text_of_inPlainRange {x : Binary64} (hx : x.isFinite = true) (h : x.InPlainRange)
    (unit : LengthUnit) : parse? (text ⟨x, unit⟩) = some ⟨x.withoutZeroSign, unit⟩ := by
  obtain ⟨n, hplain, htext, hvalue⟩ := exists_isPlain_cssText hx h
  have hfinite : n.toBinary64.isFinite = true := by
    rw [hvalue]
    unfold withoutZeroSign
    split
    · rfl
    · exact hx
  have hlength : (text ⟨x, unit⟩).toList = n.plainText ++ unit.text.toList := by
    rw [toList_text, htext]
  rw [parse?_of_text hplain hlength, if_pos hfinite, hvalue]

/-- An exponent is refused. -/
theorem parse?_of_isScientific {length : String} {n : Numeral} {unit : LengthUnit}
    (h : n.IsScientific) (htext : length.toList = n.writtenText ++ unit.text.toList) :
    parse? length = none := by
  have hsplit := Numeral.split_writtenText_append h (Numeral.ends_unit unit)
  unfold parse?
  rw [htext, hsplit]
  simp only [LengthUnit.parse?_text, Numeral.isLength_of_isScientific h, Bool.false_eq_true,
    false_and, if_false]

/-- **Every text of a length** is split into a numeral that denotes the number, and the
unit. -/
theorem exists_split_text {x : Binary64} (hx : x.isFinite = true) (unit : LengthUnit) :
    ∃ n : Numeral, Numeral.split (text ⟨x, unit⟩).toList = (n, unit.text.toList) ∧
      Alike n.toBinary64 x := by
  by_cases h : x.InPlainRange
  · obtain ⟨n, hplain, htext, hvalue⟩ := exists_isPlain_cssText hx h
    refine ⟨n, ?_, hvalue ▸ x.alike_withoutZeroSign⟩
    rw [toList_text, htext]
    exact Numeral.split_plainText_append hplain (Numeral.ends_unit unit)
  · obtain ⟨n, hscientific, htext, hvalue⟩ := exists_isScientific_cssText hx h
    refine ⟨n, ?_, congrArg place? hvalue⟩
    rw [toList_text, htext]
    exact Numeral.split_writtenText_append hscientific (Numeral.ends_unit unit)

/-- **The text of a length tells** its number, up to the sign of zero, and its unit. -/
theorem text_eq_iff {x y : Binary64} (hx : x.isFinite = true) (hy : y.isFinite = true)
    (unit other : LengthUnit) :
    text ⟨x, unit⟩ = text ⟨y, other⟩ ↔ x.equal y = true ∧ unit = other := by
  rw [equal_iff_alike hx]
  constructor
  · intro htext
    obtain ⟨n, hsplit, hxn⟩ := exists_split_text hx unit
    obtain ⟨m, hsplit', hym⟩ := exists_split_text hy other
    rw [htext, hsplit'] at hsplit
    obtain ⟨rfl, hunits⟩ := Prod.mk.inj hsplit
    have hunit := congrArg LengthUnit.parse? hunits
    rw [LengthUnit.parse?_text, LengthUnit.parse?_text] at hunit
    exact ⟨hxn.symm.trans hym, (Option.some.inj hunit).symm⟩
  · rintro ⟨halike, rfl⟩
    unfold text
    rw [halike.cssText_eq]

/-- **Lengths are read back exactly where their digits are written out.**  A finite
number that is zero or in the range is read back with its unit, as an equal number that
has no sign if it is zero.  Every other finite number is written with an exponent and
refused, though its numeral denotes a value to which the number is nearest.  And two
finite lengths have one text exactly if their numbers are equal and their units are
the same. -/
theorem text_reads_back {x : Binary64} (hx : x.isFinite = true) (unit : LengthUnit) :
    (x.InPlainRange → ∃ y, parse? (text ⟨x, unit⟩) = some ⟨y, unit⟩ ∧ y.equal x = true ∧
      (x.equal .zero = true → y = .zero)) ∧
    (¬ x.InPlainRange → parse? (text ⟨x, unit⟩) = none ∧
      ∃ n : Numeral, n.IsScientific ∧
        (text ⟨x, unit⟩).toList = n.writtenText ++ unit.text.toList ∧
        |n.toRat| < overflow ∧ IsNearest n.toRat x ∧ x.isNegative = n.isNegative) ∧
    ∀ (y : Binary64) (other : LengthUnit), y.isFinite = true →
      (text ⟨x, unit⟩ = text ⟨y, other⟩ ↔ x.equal y = true ∧ unit = other) := by
  refine ⟨?_, ?_, fun y other hy => text_eq_iff hx hy unit other⟩
  · intro hrange
    refine ⟨x.withoutZeroSign, parse?_text_of_inPlainRange hx hrange unit, ?_, fun hzero => if_pos hzero⟩
    rw [equal_comm, equal_iff_alike hx]
    exact x.alike_withoutZeroSign.symm
  · intro hrange
    obtain ⟨n, hscientific, htext, hvalue⟩ := exists_isScientific_cssText hx hrange
    have hlength : (text ⟨x, unit⟩).toList = n.writtenText ++ unit.text.toList := by
      rw [toList_text, htext]
    exact ⟨parse?_of_isScientific hscientific hlength, n, hscientific, hlength,
      (n.toBinary64_eq_iff x).1 ⟨hvalue.symm, hx⟩⟩

/-- A tenth is read back, and a ten-millionth is not. -/
theorem text_reads_back_tenth :
    let tenth := Binary64.ofDecimal false ⟨1, -1⟩
    let tiny := Binary64.ofDecimal true ⟨15, -8⟩
    tenth.isFinite = true ∧ tenth.InPlainRange ∧ text ⟨tenth, .rem⟩ = "0.1rem" ∧
      (∃ y, parse? "0.1rem" = some ⟨y, .rem⟩ ∧ y.equal tenth = true) ∧
      tiny.isFinite = true ∧ ¬ tiny.InPlainRange ∧ text ⟨tiny, .px⟩ = "-1.5e-7px" ∧
      parse? "-1.5e-7px" = none ∧
      (text ⟨tiny, .px⟩ = text ⟨tenth, .rem⟩ ↔ tiny.equal tenth = true ∧ LengthUnit.px = .rem) := by
  intro tenth tiny
  have htenth : tenth.isFinite = true := by decide +kernel
  have htiny : tiny.isFinite = true := by decide +kernel
  have hrange : tenth.InPlainRange := by decide +kernel
  have hrange' : ¬ tiny.InPlainRange := by decide +kernel
  have htext : text ⟨tenth, .rem⟩ = "0.1rem" := by decide +kernel
  have htext' : text ⟨tiny, .px⟩ = "-1.5e-7px" := by decide +kernel
  obtain ⟨y, hparse, hequal, -⟩ := (text_reads_back htenth .rem).1 hrange
  obtain ⟨-, hrefused, hsame⟩ := text_reads_back htiny .px
  have hnone := (hrefused hrange').1
  rw [htext] at hparse
  rw [htext'] at hnone
  exact ⟨htenth, hrange, htext, ⟨y, hparse, hequal⟩, htiny, hrange', htext', hnone,
    hsame tenth .rem htenth⟩

end Length

end FluidClamp
