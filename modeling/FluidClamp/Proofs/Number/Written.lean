/-
  FluidClamp.Proofs.Number.Written
  ────────────────────────────────
  **WHAT THE TEXT OF A NUMBER DENOTES.**

  Both layouts of a decimal are numerals, and neither changes the value:

      positional     1200, 1.5, 0.00012     a plain numeral
      scientific     1e-7, 2.5e+22          a digit, perhaps a point and more, and an
                                            exponent with its sign

  `Numeral.IsScientific` says what the second looks like.  A numeral of either form
  is split off whole in front of a text that could not go on with it, so the text of
  a number is read as the numeral that was meant.
-/
import FluidClamp.Proofs.Length.Language
import FluidClamp.Proofs.Number.Shortest

namespace FluidClamp

/-! ## §1. Numerals with an exponent. -/

namespace Numeral

/-- How an exponent is written. -/
def exponentText : Option (Option Sign × List Char) → List Char
  | none => []
  | some (sign, digits) => 'e' :: (signText sign ++ digits)

/-- How a numeral is written. -/
def writtenText (n : Numeral) : List Char := n.plainText ++ exponentText n.exponent

/-- **A digit, perhaps a point and more digits, and an exponent with a sign.** -/
structure IsScientific (n : Numeral) : Prop where
  whole : ∃ first : Char, first.isDigit = true ∧ n.whole = [first]
  fraction : ∀ digits, n.fraction = some digits → IsDigits digits ∧ digits ≠ []
  exponent : ∃ sign digits, n.exponent = some (some sign, digits) ∧ IsDigits digits ∧ digits ≠ []

/-- An exponent is split off whole. -/
theorem splitExponent_append (sign : Sign) {digits rest : List Char} (h : IsDigits digits)
    (hrest : Ends rest) :
    splitExponent (exponentText (some (some sign, digits)) ++ rest) =
      (some (some sign, digits), rest) := by
  have hdigits := splitDigits_append_of_head h fun c hc => (hrest c hc).1
  have hsign : Sign.split (signText (some sign) ++ digits ++ rest) = (some sign, digits ++ rest) := by
    cases sign <;> rfl
  show splitExponent ('e' :: (signText (some sign) ++ digits ++ rest)) = _
  simp only [splitExponent, true_or, if_true, hsign, hdigits]

/-- **A numeral with an exponent is split off whole.** -/
theorem split_writtenText_append {n : Numeral} (h : n.IsScientific) {rest : List Char}
    (hrest : Ends rest) : split (n.writtenText ++ rest) = (n, rest) := by
  obtain ⟨first, hfirst, hwhole⟩ := h.whole
  obtain ⟨sign, digits, hexponent, hdigits, -⟩ := h.exponent
  -- the mark of the exponent ends the digits before it
  have hmark : ∀ c ∈ (exponentText n.exponent ++ rest).head?, c.isDigit = false ∧ c ≠ '.' := by
    rw [hexponent]
    intro c hc
    obtain rfl : 'e' = c := Option.some.inj hc
    decide
  have hhead : ∀ c ∈ (n.whole ++ (fractionText n.fraction ++ (exponentText n.exponent ++ rest))).head?,
      c ≠ '+' ∧ c ≠ '-' := by
    rw [hwhole]
    intro c hc
    obtain rfl : first = c := Option.some.inj hc
    exact not_sign_of_isDigit hfirst
  have hdigit : IsDigits n.whole := by
    rw [hwhole]
    exact List.forall_mem_singleton.2 hfirst
  have hwhole' := splitDigits_append_of_head hdigit
    (not_isDigit_head?_fraction n.fraction fun c hc => (hmark c hc).1)
  have hfraction := splitFraction_append (fun digits hd => (h.fraction digits hd).1) hmark
  have hexponent' := splitExponent_append sign hdigits hrest
  rw [← hexponent] at hexponent'
  -- part by part, each ends before a character that it cannot take
  unfold split writtenText plainText
  rw [List.append_assoc, List.append_assoc, List.append_assoc,
    split_signText_append n.sign hhead]
  simp only [hwhole', hfraction, hexponent']

theorem isLength_of_isScientific {n : Numeral} (h : n.IsScientific) : n.isLength = false := by
  obtain ⟨sign, digits, hexponent, -, -⟩ := h.exponent
  unfold isLength
  rw [hexponent]
  rfl

end Numeral

/-! ## §2. Layouts of a decimal. -/

namespace Decimal

open Numeral

variable (d : Decimal) (sign : Option Sign)

theorem isDigits_toDigits (n : Nat) : IsDigits (Nat.toDigits 10 n) :=
  fun _ hc => Nat.isDigit_of_mem_toDigits (by omega) (by omega) hc

theorem isDigits_zeros (n : Nat) : IsDigits (List.replicate n '0') := by
  intro c hc
  rw [List.eq_of_mem_replicate hc]
  rfl

theorem isDigits_append {a b : List Char} (ha : IsDigits a) (hb : IsDigits b) :
    IsDigits (a ++ b) := by
  intro c hc
  exact (List.mem_append.1 hc).elim (ha c) (hb c)

theorem ofDigits_toDigits (n : Nat) : ofDigits (Nat.toDigits 10 n) = n :=
  Nat.ofDigitChars_ten_toDigits

/-- Zeros up to the point, which is not written. -/
theorem exists_isPlain_of_nonneg (h : 0 ≤ d.exponent) :
    ∃ n : Numeral, n.IsPlain ∧ n.sign = sign ∧ n.plainText = signText sign ++ d.positional ∧
      n.toDecimal.toRat = d.toRat := by
  obtain ⟨places, hplaces⟩ := Int.eq_ofNat_of_zero_le h
  have hvalue : ofDigits (d.digits ++ List.replicate places '0') = 10 ^ places * d.coefficient := by
    unfold ofDigits digits
    rw [Nat.ofDigitChars_append, Nat.ofDigitChars_replicate_zero, Nat.ofDigitChars_ten_toDigits]
  refine ⟨⟨sign, d.digits ++ List.replicate places '0', none, none⟩, ⟨rfl, ?_, nofun, ?_⟩, rfl,
    ?_, ?_⟩
  · exact isDigits_append (isDigits_toDigits _) (isDigits_zeros _)
  · intro _ hnil
    exact absurd (List.append_eq_nil_iff.1 hnil).1 Nat.toDigits_ne_nil
  · unfold plainText positional
    rw [if_pos h, hplaces, Int.toNat_natCast]
    exact congrArg (signText sign ++ ·) (List.append_nil _)
  · -- the zeros are the power of ten
    unfold toDecimal toRat
    simp only [Option.getD_none, List.append_nil, hvalue, toDecimal.power, List.length_nil,
      Nat.cast_zero, sub_zero, zpow_zero, mul_one, hplaces, zpow_natCast]
    push_cast
    exact mul_comm _ _

/-- The digits behind as many zeros as it takes for one of them to stand before the point. -/
def padded (places : Nat) : List Char :=
  List.replicate (places + 1 - d.digits.length) '0' ++ d.digits

theorem isDigits_padded (places : Nat) : IsDigits (d.padded places) :=
  isDigits_append (isDigits_zeros _) (isDigits_toDigits _)

theorem lt_length_padded (places : Nat) : places < (d.padded places).length := by
  unfold padded
  rw [List.length_append, List.length_replicate]
  omega

theorem ofDigits_padded (places : Nat) : ofDigits (d.padded places) = d.coefficient := by
  unfold ofDigits padded digits
  rw [Nat.ofDigitChars_append, Nat.ofDigitChars_replicate_zero, Nat.mul_zero,
    Nat.ofDigitChars_ten_toDigits]

/-- The point stands as far from the end as the exponent says. -/
theorem exists_isPlain_of_neg {places : Nat} (hplaces : places ≠ 0)
    (h : d.exponent = -(places : Int)) :
    ∃ n : Numeral, n.IsPlain ∧ n.sign = sign ∧ n.plainText = signText sign ++ d.positional ∧
      n.toDecimal.toRat = d.toRat := by
  have hdigits := d.isDigits_padded places
  have hvalue := d.ofDigits_padded places
  have htext : d.positional =
      (d.padded places).take ((d.padded places).length - places) ++
        '.' :: (d.padded places).drop ((d.padded places).length - places) := by
    have hneg : ¬ 0 ≤ d.exponent := by omega
    have htoNat : (-d.exponent).toNat = places := by omega
    unfold positional
    rw [if_neg hneg, htoNat]
    rfl
  have hlength : ((d.padded places).drop ((d.padded places).length - places)).length = places := by
    have hlt := d.lt_length_padded places
    rw [List.length_drop]
    omega
  generalize d.padded places = padded at hdigits hvalue htext hlength
  refine ⟨⟨sign, padded.take (padded.length - places), some (padded.drop (padded.length - places)),
    none⟩, ⟨rfl, ?_, ?_, nofun⟩, rfl, ?_, ?_⟩
  · exact fun c hc => hdigits c (List.mem_of_mem_take hc)
  · intro digits hfraction
    obtain rfl := Option.some.inj hfraction
    refine ⟨fun c hc => hdigits c (List.mem_of_mem_drop hc), ?_⟩
    intro hnil
    rw [hnil] at hlength
    exact hplaces hlength.symm
  · rw [htext]
    rfl
  · unfold toDecimal toRat
    simp only [Option.getD_some, List.take_append_drop, hvalue, toDecimal.power, hlength, h,
      zero_sub]

/-- **All digits written out** are a plain numeral of the same value. -/
theorem exists_isPlain_positional :
    ∃ n : Numeral, n.IsPlain ∧ n.sign = sign ∧ n.plainText = signText sign ++ d.positional ∧
      n.toDecimal.toRat = d.toRat := by
  by_cases hwhole : 0 ≤ d.exponent
  · exact d.exists_isPlain_of_nonneg sign hwhole
  · obtain ⟨places, hplaces⟩ := Int.exists_eq_neg_ofNat (Int.le_of_not_le hwhole)
    exact d.exists_isPlain_of_neg sign (by omega) hplaces

/-- The digits behind the first one, if there are any, stand behind a point. -/
theorem exists_fraction (first : Char) {rest : List Char} (h : IsDigits rest) :
    ∃ fraction : Option (List Char), fraction.getD [] = rest ∧
      (∀ digits, fraction = some digits → IsDigits digits ∧ digits ≠ []) ∧
      scientific.leading (first :: rest) = first :: fractionText fraction := by
  cases rest with
  | nil => exact ⟨none, rfl, nofun, rfl⟩
  | cons second rest =>
    refine ⟨some (second :: rest), rfl, ?_, rfl⟩
    intro digits hdigits
    obtain rfl := Option.some.inj hdigits
    exact ⟨h, List.cons_ne_nil _ _⟩

/-- A power of ten is written with its sign. -/
theorem exists_exponent (power : Int) :
    ∃ mark digits, IsDigits digits ∧ digits ≠ [] ∧
      toDecimal.power (some (some mark, digits)) = power ∧
      exponentText (some (some mark, digits)) =
        (if power < 0 then ['e', '-'] else ['e', '+']) ++ Nat.toDigits 10 power.natAbs := by
  have hdigits := isDigits_toDigits power.natAbs
  have hvalue := ofDigits_toDigits power.natAbs
  by_cases hsign : power < 0
  · refine ⟨.minus, _, hdigits, Nat.toDigits_ne_nil, ?_, ?_⟩
    · show -((ofDigits (Nat.toDigits 10 power.natAbs) : Nat) : Int) = power
      rw [hvalue]
      omega
    · rw [if_pos hsign]
      rfl
  · refine ⟨.plus, _, hdigits, Nat.toDigits_ne_nil, ?_, ?_⟩
    · show ((ofDigits (Nat.toDigits 10 power.natAbs) : Nat) : Int) = power
      rw [hvalue]
      omega
    · rw [if_neg hsign]
      rfl

/-- **A digit, a point and a power of ten** are a numeral with the same digits and the
same exponent. -/
theorem exists_isScientific :
    ∃ n : Numeral, n.IsScientific ∧ n.sign = sign ∧
      n.writtenText = signText sign ++ d.scientific ∧ n.toDecimal = d := by
  obtain ⟨first, rest, hcons⟩ := List.exists_cons_of_ne_nil
    (Nat.toDigits_ne_nil : Nat.toDigits 10 d.coefficient ≠ [])
  have hisDigits := isDigits_toDigits d.coefficient
  have hvalue := ofDigits_toDigits d.coefficient
  rw [hcons] at hisDigits hvalue
  have hlength : ((d.digits.length - 1 : Nat) : Int) = rest.length := by
    unfold digits
    rw [hcons, List.length_cons, Nat.add_sub_cancel]
  obtain ⟨fraction, hrest, hfraction, hleading⟩ :=
    exists_fraction first fun c hc => hisDigits c (List.mem_cons_of_mem _ hc)
  obtain ⟨mark, power, hpower, hne, hpowerValue, hpowerText⟩ :=
    exists_exponent (d.exponent + (d.digits.length - 1 : Nat))
  refine ⟨⟨sign, [first], fraction, some (some mark, power)⟩, ?_, rfl, ?_, ?_⟩
  · exact ⟨⟨first, hisDigits first List.mem_cons_self, rfl⟩, hfraction, mark, power, rfl, hpower,
      hne⟩
  · have hdigits : d.digits = first :: rest := hcons
    unfold writtenText plainText scientific
    dsimp only
    rw [hpowerText, hdigits, hleading]
    simp only [List.append_assoc, List.cons_append, List.nil_append]
  · unfold toDecimal
    dsimp only
    rw [hrest, hpowerValue, hlength, Int.add_sub_cancel]
    exact congrArg (Decimal.mk · d.exponent) hvalue

end Decimal

end FluidClamp
