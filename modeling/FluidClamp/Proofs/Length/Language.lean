/-
  FluidClamp.Proofs.Length.Language
  ─────────────────────────────────
  **WHICH TEXTS ARE LENGTHS.**

  `IsLength` says what a length looks like, without a word on how one is read:

      sign? digits* (. digits+)? unit      with a digit somewhere

  and that its number, the nearest one to what is written, is finite.
  `Length.parse?` takes the longest numeral off the front, exponents included, and
  looks at its parts afterwards.  That is the same, because no unit begins with a
  character that could go on with the numeral.
-/
import FluidClamp.Length

namespace FluidClamp

/-! ## §1. The language. -/

namespace Numeral

/-- Digits only, as many as one likes. -/
def IsDigits (text : List Char) : Prop := ∀ c ∈ text, c.isDigit = true

/-- How a sign is written. -/
def signText : Option Sign → List Char
  | none => []
  | some sign => [sign.toChar]

/-- How the digits after the point are written. -/
def fractionText : Option (List Char) → List Char
  | none => []
  | some digits => '.' :: digits

/-- How a numeral without exponent is written. -/
def plainText (n : Numeral) : List Char :=
  signText n.sign ++ (n.whole ++ fractionText n.fraction)

/-- No exponent, and a digit at the end. -/
structure IsPlain (n : Numeral) : Prop where
  exponent : n.exponent = none
  whole : IsDigits n.whole
  fraction : ∀ digits, n.fraction = some digits → IsDigits digits ∧ digits ≠ []
  nonempty : n.fraction = none → n.whole ≠ []

end Numeral

/-- **The texts that are lengths**, and which. -/
def IsLength (text : String) (length : Length Binary64) : Prop :=
  ∃ n : Numeral, n.IsPlain ∧ text.toList = n.plainText ++ length.unit.text.toList ∧
    length.value = n.toBinary64 ∧ length.value.isFinite = true

/-! ## §2. What a numeral is split into. -/

theorem Sign.signText_append_split (text : List Char) :
    Numeral.signText (Sign.split text).1 ++ (Sign.split text).2 = text := by
  unfold Sign.split
  split <;> rfl

namespace Numeral

theorem splitDigits_append (text : List Char) :
    (splitDigits text).1 ++ (splitDigits text).2 = text :=
  List.takeWhile_append_dropWhile

theorem isDigits_splitDigits (text : List Char) : IsDigits (splitDigits text).1 := by
  intro c hc
  exact List.all_eq_true.1 List.all_takeWhile c hc

theorem fractionText_append_split (text : List Char) :
    fractionText (splitFraction text).1 ++ (splitFraction text).2 = text := by
  unfold splitFraction
  split
  · exact congrArg ('.' :: ·) (splitDigits_append _)
  · rfl

theorem isDigits_splitFraction {text digits : List Char}
    (h : (splitFraction text).1 = some digits) : IsDigits digits := by
  unfold splitFraction at h
  split at h
  · exact Option.some.inj h ▸ isDigits_splitDigits _
  · exact nomatch h

theorem splitExponent_of_isNone {text : List Char} (h : (splitExponent text).1 = none) :
    (splitExponent text).2 = text := by
  unfold splitExponent at h ⊢
  split at h
  · split at h
    · exact nomatch h
    · next hc => rw [if_neg hc]
  · rfl

/-- **A split numeral without exponent** is written at the front of the text. -/
theorem plainText_append_split {text : List Char} (h : (split text).1.exponent = none) :
    (split text).1.plainText ++ (split text).2 = text := by
  have hrest := splitExponent_of_isNone h
  show signText (Sign.split text).1 ++ ((splitDigits (Sign.split text).2).1 ++
    fractionText (splitFraction (splitDigits (Sign.split text).2).2).1) ++ (splitExponent _).2 = text
  rw [hrest, List.append_assoc, List.append_assoc, fractionText_append_split, splitDigits_append,
    Sign.signText_append_split]

theorem isPlain_split {text : List Char} (h : (split text).1.isLength = true) :
    (split text).1.IsPlain := by
  unfold isLength at h
  rw [Bool.and_eq_true, Option.isNone_iff_eq_none] at h
  obtain ⟨hexponent, hdigits⟩ := h
  refine ⟨hexponent, isDigits_splitDigits _, ?_, ?_⟩
  · intro digits hfraction
    rw [hfraction] at hdigits
    refine ⟨isDigits_splitFraction hfraction, ?_⟩
    rintro rfl
    exact nomatch hdigits
  · intro hfraction hwhole
    rw [hfraction, hwhole] at hdigits
    exact nomatch hdigits

theorem isLength_of_isPlain {n : Numeral} (h : n.IsPlain) : n.isLength = true := by
  have hnonempty : ∀ l : List Char, l ≠ [] → (!l.isEmpty) = true := by
    intro l hl
    cases l with
    | nil => exact absurd rfl hl
    | cons _ _ => rfl
  unfold isLength
  rw [h.exponent, Option.isNone_none, Bool.true_and]
  cases hfraction : n.fraction with
  | none => exact hnonempty _ (h.nonempty hfraction)
  | some digits => exact hnonempty _ (h.fraction digits hfraction).2

/-! ## §3. Where a numeral ends. -/

/-- A text that could not go on with a numeral. -/
def Ends (text : List Char) : Prop :=
  ∀ c ∈ text.head?, c.isDigit = false ∧ c ≠ '.' ∧ c ≠ 'e' ∧ c ≠ 'E' ∧ c ≠ '+' ∧ c ≠ '-'

theorem ends_unit (unit : LengthUnit) : Ends unit.text.toList := by
  intro c hc
  cases unit with
  | px =>
    obtain rfl : 'p' = c := Option.some.inj hc
    decide
  | rem =>
    obtain rfl : 'r' = c := Option.some.inj hc
    decide

theorem splitDigits_append_of_head {digits rest : List Char} (h : IsDigits digits)
    (hrest : ∀ c ∈ rest.head?, c.isDigit = false) :
    splitDigits (digits ++ rest) = (digits, rest) := by
  unfold splitDigits
  induction digits with
  | nil =>
    cases rest with
    | nil => rfl
    | cons c rest =>
      have hc : ¬ c.isDigit = true := Bool.eq_false_iff.1 (hrest c rfl)
      rw [List.nil_append, List.takeWhile_cons_of_neg hc, List.dropWhile_cons_of_neg hc]
  | cons d digits ih =>
    have hd := h d List.mem_cons_self
    have htail := ih fun c hc => h c (List.mem_cons_of_mem _ hc)
    obtain ⟨htake, hdrop⟩ := Prod.mk.inj htail
    rw [List.cons_append, List.takeWhile_cons_of_pos hd, List.dropWhile_cons_of_pos hd, htake,
      hdrop]

theorem splitFraction_append {fraction : Option (List Char)} {rest : List Char}
    (h : ∀ digits, fraction = some digits → IsDigits digits)
    (hrest : ∀ c ∈ rest.head?, c.isDigit = false ∧ c ≠ '.') :
    splitFraction (fractionText fraction ++ rest) = (fraction, rest) := by
  cases fraction with
  | none =>
    cases rest with
    | nil => rfl
    | cons c rest =>
      show splitFraction (c :: rest) = (none, c :: rest)
      unfold splitFraction
      split
      · next heq =>
        obtain ⟨hc, -⟩ := List.cons.inj heq
        exact absurd hc (hrest c rfl).2
      · rfl
  | some digits =>
    have hsplit := splitDigits_append_of_head (h digits rfl) fun c hc => (hrest c hc).1
    show (some (splitDigits (digits ++ rest)).1, (splitDigits (digits ++ rest)).2) = _
    rw [hsplit]

theorem splitExponent_of_ends {text : List Char} (h : Ends text) :
    splitExponent text = (none, text) := by
  cases text with
  | nil => rfl
  | cons c text =>
    have hc := h c rfl
    exact if_neg (not_or.2 ⟨hc.2.2.1, hc.2.2.2.1⟩)

theorem split_signText_append (sign : Option Sign) {rest : List Char}
    (h : ∀ c ∈ rest.head?, c ≠ '+' ∧ c ≠ '-') :
    Sign.split (signText sign ++ rest) = (sign, rest) := by
  cases sign with
  | some sign => cases sign <;> rfl
  | none =>
    cases rest with
    | nil => rfl
    | cons c rest =>
      have hc := h c rfl
      show Sign.split (c :: rest) = (none, c :: rest)
      unfold Sign.split
      split
      · next heq => exact absurd (List.cons.inj heq).1 hc.1
      · next heq => exact absurd (List.cons.inj heq).1 hc.2
      · rfl

theorem not_sign_of_isDigit {c : Char} (h : c.isDigit = true) : c ≠ '+' ∧ c ≠ '-' := by
  constructor <;> rintro rfl <;> exact absurd h (by decide)

/-- What is written of a plain numeral behind its sign begins with a digit or a point. -/
theorem exists_cons_unsigned {n : Numeral} (h : n.IsPlain) :
    ∃ c rest, n.whole ++ fractionText n.fraction = c :: rest ∧ (c.isDigit = true ∨ c = '.') := by
  cases hwhole : n.whole with
  | cons d digits => exact ⟨d, _, rfl, .inl (h.whole d (hwhole ▸ List.mem_cons_self))⟩
  | nil =>
    cases hfraction : n.fraction with
    | none => exact absurd hwhole (h.nonempty hfraction)
    | some digits => exact ⟨'.', digits, rfl, .inr rfl⟩

theorem head?_unsigned {n : Numeral} (h : n.IsPlain) (rest : List Char) :
    ∀ c ∈ (n.whole ++ (fractionText n.fraction ++ rest)).head?, c ≠ '+' ∧ c ≠ '-' := by
  obtain ⟨d, digits, hcons, hd⟩ := exists_cons_unsigned h
  rw [← List.append_assoc, hcons]
  intro c hc
  obtain rfl : d = c := Option.some.inj hc
  rcases hd with hdigit | rfl
  · exact not_sign_of_isDigit hdigit
  · decide

theorem not_isDigit_head?_fraction (fraction : Option (List Char)) {rest : List Char}
    (hrest : ∀ c ∈ rest.head?, c.isDigit = false) :
    ∀ c ∈ (fractionText fraction ++ rest).head?, c.isDigit = false := by
  intro c hc
  cases fraction with
  | none => exact hrest c hc
  | some digits =>
    obtain rfl : '.' = c := Option.some.inj hc
    rfl

/-- **A plain numeral is split off whole.** -/
theorem split_plainText_append {n : Numeral} (h : n.IsPlain) {rest : List Char}
    (hrest : Ends rest) : split (n.plainText ++ rest) = (n, rest) := by
  have hsign := split_signText_append n.sign (head?_unsigned h rest)
  have hwhole := splitDigits_append_of_head h.whole
    (not_isDigit_head?_fraction n.fraction fun c hc => (hrest c hc).1)
  have hfraction := splitFraction_append (fun digits hd => (h.fraction digits hd).1)
    fun c hc => ⟨(hrest c hc).1, (hrest c hc).2.1⟩
  have hexponent := splitExponent_of_ends hrest
  -- part by part, each ends before a character that it cannot take
  unfold split plainText
  rw [List.append_assoc, List.append_assoc, hsign]
  simp only [hwhole, hfraction, hexponent]
  rw [← h.exponent]

end Numeral

/-! ## §4. Reading a length. -/

theorem LengthUnit.eq_of_parse? {text : List Char} {unit : LengthUnit}
    (h : parse? text = some unit) : text = unit.text.toList := by
  unfold parse? at h
  split at h
  · rw [← Option.some.inj h]
    rfl
  · rw [← Option.some.inj h]
    rfl
  · exact nomatch h

/-- A plain numeral with a unit is a length, if its number is finite: the unit cannot go
on with the numeral, so the numeral is split off whole. -/
theorem Length.parse?_of_text {text : String} {n : Numeral} {unit : LengthUnit}
    (hplain : n.IsPlain) (htext : text.toList = n.plainText ++ unit.text.toList) :
    parse? text = if n.toBinary64.isFinite then some ⟨n.toBinary64, unit⟩ else none := by
  have hsplit := Numeral.split_plainText_append hplain (Numeral.ends_unit unit)
  unfold parse?
  rw [htext, hsplit]
  simp only [LengthUnit.parse?_text, Numeral.isLength_of_isPlain hplain, true_and]

/-- **`Length.parse?` reads the lengths**, and nothing else. -/
theorem Length.parse?_eq_some_iff (text : String) (length : Length Binary64) :
    parse? text = some length ↔ IsLength text length := by
  constructor
  · intro h
    unfold parse? at h
    simp only at h
    split at h
    · exact nomatch h
    · next unit hunit =>
      split at h
      · next hparsed =>
        obtain rfl := Option.some.inj h
        -- no exponent was split off, so the parts make up the text
        have hplain := Numeral.isPlain_split hparsed.1
        refine ⟨_, hplain, ?_, rfl, hparsed.2⟩
        rw [← LengthUnit.eq_of_parse? hunit]
        exact (Numeral.plainText_append_split hplain.exponent).symm
      · exact nomatch h
  · intro hgiven
    obtain ⟨n, hplain, htext, hvalue, hfinite⟩ := hgiven
    rw [hvalue] at hfinite
    rw [parse?_of_text hplain htext, if_pos hfinite, ← hvalue]

theorem Length.parse?_eq_none_iff (text : String) :
    parse? text = none ↔ ∀ length, ¬ IsLength text length := by
  rw [Option.eq_none_iff_forall_ne_some]
  exact forall_congr' fun length => not_congr (parse?_eq_some_iff text length)

/-- A text is one length at most. -/
theorem IsLength.unique {text : String} {a b : Length Binary64} (ha : IsLength text a)
    (hb : IsLength text b) : a = b := by
  rw [← Length.parse?_eq_some_iff] at ha hb
  exact Option.some.inj (ha.symm.trans hb)

end FluidClamp
