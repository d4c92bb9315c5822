/-
  FluidClamp.Proofs.Length.Reading
  ────────────────────────────────
  **A LENGTH IS THE NEAREST NUMBER TO ITS NUMERAL, AND A UNIT.**

  The texts of lengths are those that a pattern matches as a whole,

      ^([+-]?[0-9]*\.?[0-9]+)(px|rem)$

  Digits before a point may be taken by either repetition, but the groups do not
  depend on that: what is taken as a number is a plain numeral, and what is taken as
  a unit is the text of one (`takes_pattern_iff`).  So reading through the pattern
  never meets another unit, and comes to what `Length.parse?` comes to
  (`throughPattern_eq`).  The number that is read is the one nearest to the numeral,
  unless that is too large (`parse?_reads_nearest`).
-/
import FluidClamp.Proofs.Length.Language
import FluidClamp.Proofs.Number.Decimals
import FluidClamp.Proofs.Text.Taken

namespace FluidClamp

/-! ## §1. The value of a numeral. -/

namespace Numeral

theorem toRat_eq_signed (n : Numeral) :
    n.toRat = Binary64.signed n.isNegative n.toDecimal.toRat := rfl

theorem abs_toRat (n : Numeral) : |n.toRat| = n.toDecimal.toRat := by
  have hzero := Binary64.abs_signed_sub n.isNegative n.toDecimal.toRat 0
  rw [Binary64.signed_zero, sub_zero, sub_zero] at hzero
  rw [toRat_eq_signed, hzero, abs_of_nonneg n.toDecimal.toRat_nonneg]

theorem isFinite_toBinary64_iff (n : Numeral) :
    n.toBinary64.isFinite = true ↔ |n.toRat| < Binary64.overflow := by
  rw [abs_toRat]
  exact Binary64.isFinite_ofDecimal_iff n.isNegative n.toDecimal

/-- **A numeral is read as a finite number** exactly if it is not too large, and then as
the nearest one. -/
theorem toBinary64_eq_iff (n : Numeral) (x : Binary64) :
    x = n.toBinary64 ∧ x.isFinite = true ↔
      |n.toRat| < Binary64.overflow ∧ Binary64.IsNearest n.toRat x ∧
        x.isNegative = n.isNegative := by
  rw [abs_toRat, toRat_eq_signed, ← Binary64.ofDecimal_eq_iff, eq_comm]
  rfl

/-! ## §2. Plain numerals as numbers of their own. -/

theorem ends_nil : Ends [] := by
  intro c hc
  exact nomatch hc

theorem split_plainText {n : Numeral} (h : n.IsPlain) : split n.plainText = (n, []) := by
  have hsplit := split_plainText_append h ends_nil
  rw [List.append_nil] at hsplit
  exact hsplit

theorem toLower_of_isDigit {c : Char} (h : c.isDigit = true) : c.toLower = c := by
  unfold Char.isDigit at h
  rw [Bool.and_eq_true, decide_eq_true_eq, decide_eq_true_eq] at h
  have hupper : ¬ (c.val ≥ 'A'.val ∧ c.val ≤ 'Z'.val) := by
    rintro ⟨hlow, -⟩
    exact absurd (UInt32.le_trans hlow h.2) (by decide)
  unfold Char.toLower
  rw [dif_neg hupper]

/-- Behind its sign it is not one of the names for infinity and not-a-number. -/
theorem foldCase_unsigned_ne {n : Numeral} (h : n.IsPlain) (letter : Char)
    (hletter : letter.isDigit = false ∧ letter ≠ '.') (word : List Char) :
    Binary64.foldCase (n.whole ++ fractionText n.fraction) ≠ letter :: word := by
  obtain ⟨c, rest, hcons, hc⟩ := exists_cons_unsigned h
  have hlower : c.toLower = c := by
    rcases hc with hdigit | rfl
    · exact toLower_of_isDigit hdigit
    · rfl
  rw [hcons]
  intro hname
  obtain rfl : c = letter := hlower.symm.trans (List.cons.inj hname).1
  rcases hc with hdigit | hpoint
  · exact absurd hdigit (Bool.eq_false_iff.1 hletter.1)
  · exact hletter.2 hpoint

theorem isFloat_of_isPlain {n : Numeral} (h : n.IsPlain) : n.isFloat = true := by
  unfold isFloat
  rw [h.exponent, Option.all_none, Bool.and_true]
  cases hfraction : n.fraction with
  | none =>
    obtain ⟨c, digits, hwhole⟩ := List.exists_cons_of_ne_nil (h.nonempty hfraction)
    rw [hwhole]
    rfl
  | some digits =>
    obtain ⟨c, rest, rfl⟩ := List.exists_cons_of_ne_nil (h.fraction digits hfraction).2
    exact Bool.or_true _

/-- **A plain numeral on its own** is read as its number. -/
theorem ofText?_plainText {n : Numeral} (h : n.IsPlain) :
    Binary64.ofText? n.plainText = some n.toBinary64 := by
  have hsign : Sign.split n.plainText = (n.sign, n.whole ++ fractionText n.fraction) := by
    have hhead := head?_unsigned h []
    rw [List.append_nil] at hhead
    exact split_signText_append n.sign hhead
  have hnan := foldCase_unsigned_ne h 'n' (by decide)
  have hinf := foldCase_unsigned_ne h 'i' (by decide)
  -- no name applies, and the numeral takes the whole text
  unfold Binary64.ofText?
  dsimp only
  rw [hsign, split_plainText h]
  dsimp only
  rw [if_neg (hnan _), if_neg (not_or.2 ⟨hinf _, hinf _⟩), if_pos ⟨rfl, isFloat_of_isPlain h⟩]

end Numeral

/-! ## §3. The pattern. -/

namespace Length

open Regex (Takes takes_seq_iff takes_optional_one_iff takes_many_one_iff takes_some_one_iff
  takes_either_iff takes_literal_iff takes_start_iff takes_group_iff)

def isSign (c : Char) : Bool := c == '+' || c == '-'

/-- The number of a length, `[+-]?[0-9]*\.?[0-9]+`. -/
def numberPattern : Regex :=
  .seq (.optional (.one isSign))
    (.seq (.many (.one Char.isDigit))
      (.seq (.optional (.one (· == '.'))) (.some (.one Char.isDigit))))

/-- Its unit, `px|rem`. -/
def unitPattern : Regex := .either (.literal ['p', 'x']) (.literal ['r', 'e', 'm'])

/-- **A length**, from the start of the text on. -/
def pattern : Regex := .seq .start (.seq (.group numberPattern) (.group unitPattern))

theorem isSign_optional_iff {s : List Char} :
    (s = [] ∨ ∃ c, isSign c = true ∧ s = [c]) ↔ ∃ sign, s = Numeral.signText sign := by
  constructor
  · rintro (rfl | ⟨c, hc, rfl⟩)
    · exact ⟨none, rfl⟩
    · rcases Bool.or_eq_true_iff.1 hc with hplus | hminus
      · exact ⟨some .plus, by rw [eq_of_beq hplus]; rfl⟩
      · exact ⟨some .minus, by rw [eq_of_beq hminus]; rfl⟩
  · rintro ⟨sign, rfl⟩
    cases sign with
    | none => exact .inl rfl
    | some sign => cases sign <;> exact .inr ⟨_, rfl, rfl⟩

/-- The pieces that a number is taken in.  Digits without a point behind them may be
shared between `whole` and `digits` in any way. -/
structure IsCut (taken : List Char) (sign : Option Sign) (whole point digits : List Char) :
    Prop where
  isDigits_whole : Numeral.IsDigits whole
  point_cases : point = [] ∨ point = ['.']
  isDigits_digits : Numeral.IsDigits digits
  digits_ne : digits ≠ []
  taken_eq : taken = Numeral.signText sign ++ (whole ++ (point ++ digits))

/-- **Cut in any way, it is a plain numeral.** -/
theorem IsCut.exists_isPlain {taken : List Char} {sign : Option Sign}
    {whole point digits : List Char} (h : IsCut taken sign whole point digits) :
    ∃ n : Numeral, n.IsPlain ∧ taken = n.plainText := by
  rcases h.point_cases with hpoint | hpoint
  · -- without a point, both repetitions took of the digits before it
    have hall : Numeral.IsDigits (whole ++ digits) :=
      List.forall_mem_append.2 ⟨h.isDigits_whole, h.isDigits_digits⟩
    refine ⟨⟨sign, whole ++ digits, none, none⟩, ⟨rfl, hall, ?_, ?_⟩, ?_⟩
    · intro digits hnone
      exact nomatch hnone
    · intro _ hnil
      exact h.digits_ne (List.append_eq_nil_iff.1 hnil).2
    · rw [h.taken_eq, hpoint, List.nil_append]
      simp only [Numeral.plainText, Numeral.fractionText, List.append_nil]
  · refine ⟨⟨sign, whole, some digits, none⟩, ⟨rfl, h.isDigits_whole, ?_, ?_⟩, ?_⟩
    · intro other hother
      obtain rfl := Option.some.inj hother
      exact ⟨h.isDigits_digits, h.digits_ne⟩
    · intro hnone
      exact nomatch hnone
    · rw [h.taken_eq, hpoint]
      rfl

/-- And every plain numeral can be cut. -/
theorem exists_isCut {n : Numeral} (h : n.IsPlain) :
    ∃ whole point digits, IsCut n.plainText n.sign whole point digits := by
  unfold Numeral.plainText
  cases hfraction : n.fraction with
  | none =>
    -- all digits can be left to the second repetition
    refine ⟨[], [], n.whole, List.forall_mem_nil _, .inl rfl, h.whole, h.nonempty hfraction, ?_⟩
    exact congrArg _ (List.append_nil _)
  | some digits =>
    obtain ⟨hdigits, hne⟩ := h.fraction digits hfraction
    exact ⟨n.whole, ['.'], digits, h.whole, .inr rfl, hdigits, hne, rfl⟩

theorem takes_numberPattern_iff_isCut {isStart : Bool} {taken : List Char}
    {groups : List (List Char)} :
    Takes isStart numberPattern taken groups ↔
      groups = [] ∧ ∃ sign whole point digits, IsCut taken sign whole point digits := by
  unfold numberPattern
  simp only [takes_seq_iff, takes_optional_one_iff, takes_many_one_iff, takes_some_one_iff,
    beq_iff_eq]
  constructor
  · rintro ⟨s, -, -, -, ⟨hsign, rfl⟩, ⟨whole, -, -, -, ⟨hwhole, rfl⟩, ⟨point, digits, -, -,
      ⟨hpoint, rfl⟩, ⟨hne, hdigits, rfl⟩, rfl, rfl⟩, rfl, rfl⟩, rfl, rfl⟩
    obtain ⟨sign, rfl⟩ := isSign_optional_iff.1 hsign
    refine ⟨rfl, sign, whole, point, digits, hwhole, ?_, hdigits, hne, rfl⟩
    exact hpoint.imp_right fun ⟨_, hc, hpoint⟩ => hc ▸ hpoint
  · rintro ⟨rfl, sign, whole, point, digits, hwhole, hpoint, hdigits, hne, rfl⟩
    have hsign := isSign_optional_iff.2 ⟨sign, rfl⟩
    have hpoint' : point = [] ∨ ∃ c, c = '.' ∧ point = [c] :=
      hpoint.imp_right fun hpoint => ⟨'.', rfl, hpoint⟩
    exact ⟨_, _, [], [], ⟨hsign, rfl⟩, ⟨whole, _, [], [], ⟨hwhole, rfl⟩,
      ⟨point, digits, [], [], ⟨hpoint', rfl⟩, ⟨hne, hdigits, rfl⟩, rfl, rfl⟩, rfl, rfl⟩, rfl, rfl⟩

/-- **What is taken as a number is a plain numeral**, whichever way the digits are shared
between the repetitions. -/
theorem takes_numberPattern_iff {isStart : Bool} {taken : List Char}
    {groups : List (List Char)} :
    Takes isStart numberPattern taken groups ↔
      groups = [] ∧ ∃ n : Numeral, n.IsPlain ∧ taken = n.plainText := by
  rw [takes_numberPattern_iff_isCut]
  refine and_congr_right fun _ => ⟨?_, ?_⟩
  · rintro ⟨sign, whole, point, digits, hcut⟩
    exact hcut.exists_isPlain
  · rintro ⟨n, hplain, rfl⟩
    exact ⟨n.sign, exists_isCut hplain⟩

theorem takes_unitPattern_iff {isStart : Bool} {taken : List Char}
    {groups : List (List Char)} :
    Takes isStart unitPattern taken groups ↔
      groups = [] ∧ ∃ unit : LengthUnit, taken = unit.text.toList := by
  unfold unitPattern
  rw [takes_either_iff, takes_literal_iff, takes_literal_iff]
  constructor
  · rintro (⟨rfl, rfl⟩ | ⟨rfl, rfl⟩)
    · exact ⟨rfl, .px, rfl⟩
    · exact ⟨rfl, .rem, rfl⟩
  · rintro ⟨rfl, unit, rfl⟩
    cases unit with
    | px => exact .inl ⟨rfl, rfl⟩
    | rem => exact .inr ⟨rfl, rfl⟩

/-- **What the pattern takes**: a plain numeral and a unit, which are its groups. -/
theorem takes_pattern_iff {taken : List Char} {groups : List (List Char)} :
    Takes true pattern taken groups ↔
      ∃ (n : Numeral) (unit : LengthUnit), n.IsPlain ∧
        taken = n.plainText ++ unit.text.toList ∧
        groups = [n.plainText, unit.text.toList] := by
  unfold pattern
  simp only [takes_seq_iff, takes_start_iff, takes_group_iff, takes_numberPattern_iff,
    takes_unitPattern_iff]
  constructor
  · rintro ⟨-, -, -, -, ⟨-, rfl, rfl⟩, ⟨-, -, -, -, ⟨-, ⟨rfl, n, hplain, rfl⟩, rfl⟩,
      ⟨-, ⟨rfl, unit, rfl⟩, rfl⟩, rfl, rfl⟩, rfl, rfl⟩
    exact ⟨n, unit, hplain, rfl, rfl⟩
  · rintro ⟨n, unit, hplain, rfl, rfl⟩
    exact ⟨[], _, [], _, ⟨trivial, rfl, rfl⟩, ⟨n.plainText, unit.text.toList, _, _,
      ⟨[], ⟨rfl, n, hplain, rfl⟩, rfl⟩, ⟨[], ⟨rfl, unit, rfl⟩, rfl⟩, rfl, rfl⟩, rfl, rfl⟩

/-! ## §4. Reading through the pattern. -/

/-- **Read a length through the pattern**: its first group as a number, and its second
as a unit.  The error is what would be reported where that is no unit. -/
def throughPattern (text : String) : Except String (Option (Length Binary64)) :=
  match pattern.whole? text.toList with
  | none => .ok none
  | some groups =>
      match Binary64.ofText? (groups[0]?.getD []) with
      | none => .ok none
      | some value =>
          if value.isFinite then
            match LengthUnit.parse? (groups[1]?.getD []) with
            | some unit => .ok (some ⟨value, unit⟩)
            | none =>
                .error ("unit pattern only captures px or rem, got " ++
                  String.ofList (groups[1]?.getD []))
          else .ok none

/-- **The pattern reads the lengths**: it never meets another unit. -/
theorem throughPattern_eq (text : String) : throughPattern text = .ok (parse? text) := by
  unfold throughPattern
  cases hwhole : pattern.whole? text.toList with
  | none =>
    have hnone : parse? text = none := by
      rw [parse?_eq_none_iff]
      intro length hlength
      obtain ⟨n, hplain, htext, -, -⟩ := hlength
      exact Regex.whole?_eq_none_iff.1 hwhole _
        (takes_pattern_iff.2 ⟨n, length.unit, hplain, htext, rfl⟩)
    rw [hnone]
  | some groups =>
    -- whichever match is preferred, its groups are those of a numeral and a unit
    obtain ⟨n, unit, hplain, htext, rfl⟩ := takes_pattern_iff.1 (Regex.takes_of_whole? hwhole)
    have hnumber : Binary64.ofText? ([n.plainText, unit.text.toList][0]?.getD []) =
        some n.toBinary64 := Numeral.ofText?_plainText hplain
    have hunit : LengthUnit.parse? ([n.plainText, unit.text.toList][1]?.getD []) = some unit :=
      LengthUnit.parse?_text unit
    simp only [hnumber, hunit, parse?_of_text hplain htext]
    split <;> rfl

/-! ## §5. What is read. -/

/-- **Lengths are read as the nearest numbers.**  A text is a length exactly if it is a
plain numeral with a unit behind it, and the numeral is rounded to a finite number; the
value is the number nearest to the numeral, with its sign.  All other texts are refused,
and the pattern that describes the lengths never takes anything else for a unit. -/
theorem parse?_reads_nearest (text : String) :
    (∀ value unit, parse? text = some ⟨value, unit⟩ ↔
      ∃ n : Numeral, n.IsPlain ∧ text.toList = n.plainText ++ unit.text.toList ∧
        |n.toRat| < Binary64.overflow ∧ Binary64.IsNearest n.toRat value ∧
        value.isNegative = n.isNegative) ∧
    (parse? text = none ↔
      ∀ (n : Numeral) (unit : LengthUnit), n.IsPlain →
        text.toList = n.plainText ++ unit.text.toList → Binary64.overflow ≤ |n.toRat|) ∧
    throughPattern text = .ok (parse? text) := by
  refine ⟨?_, ?_, throughPattern_eq text⟩
  · intro value unit
    rw [parse?_eq_some_iff]
    unfold IsLength
    simp only [Numeral.toBinary64_eq_iff]
  · constructor
    · -- a numeral below the bound would have been read
      intro hnone n unit hplain htext
      by_contra hsmall
      have hfinite := n.isFinite_toBinary64_iff.2 (not_le.1 hsmall)
      rw [parse?_of_text hplain htext, if_pos hfinite] at hnone
      exact nomatch hnone
    · intro hlarge
      rw [parse?_eq_none_iff]
      intro length hlength
      obtain ⟨n, hplain, htext, hvalue, hfinite⟩ := hlength
      rw [hvalue, n.isFinite_toBinary64_iff] at hfinite
      exact absurd hfinite (not_lt.2 (hlarge n length.unit hplain htext))

end Length

end FluidClamp
