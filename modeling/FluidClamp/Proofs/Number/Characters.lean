/-
  FluidClamp.Proofs.Number.Characters
  ───────────────────────────────────
  **THE CHARACTERS OF A NUMBER.**

  In either style a finite number is written with digits, a sign, a point and the
  mark of an exponent.  The two words for what is not finite are the only texts
  with any other letter, so a text tells whether its number is finite.
-/
import FluidClamp.Number.Text

namespace FluidClamp

/-- Digits, signs, the point and the mark of an exponent. -/
def IsNumberChar (c : Char) : Prop := c.isDigit = true ∨ c ∈ ['-', '+', '.', 'e']

theorem isNumberChar_zero : IsNumberChar '0' := .inl rfl

theorem isNumberChar_of_mem_digits {n : Nat} {c : Char} (h : c ∈ Nat.toDigits 10 n) :
    IsNumberChar c :=
  .inl (Nat.isDigit_of_mem_toDigits (by omega) (by omega) h)

namespace Decimal

theorem isNumberChar_of_mem_positional {d : Decimal} {c : Char} (h : c ∈ d.positional) :
    IsNumberChar c := by
  have hzeros : ∀ n, c ∈ List.replicate n '0' → IsNumberChar c := by
    intro n hmem
    rw [List.eq_of_mem_replicate hmem]
    exact isNumberChar_zero
  unfold positional at h
  split at h
  · rcases List.mem_append.1 h with hdigit | hzero
    · exact isNumberChar_of_mem_digits hdigit
    · exact hzeros _ hzero
  · -- on both sides of the point stand digits and the zeros before them
    have hpadded : ∀ n, c ∈ List.replicate n '0' ++ d.digits → IsNumberChar c := by
      intro n hmem
      rcases List.mem_append.1 hmem with hzero | hdigit
      · exact hzeros n hzero
      · exact isNumberChar_of_mem_digits hdigit
    simp only [List.mem_append, List.mem_cons] at h
    rcases h with hwhole | rfl | hfraction
    · exact hpadded _ (List.mem_of_mem_take hwhole)
    · exact .inr (by decide)
    · exact hpadded _ (List.mem_of_mem_drop hfraction)

theorem isNumberChar_of_mem_scientific {d : Decimal} {c : Char} (h : c ∈ d.scientific) :
    IsNumberChar c := by
  have hleading : ∀ digits : List Char, (∀ c ∈ digits, IsNumberChar c) →
      ∀ c ∈ scientific.leading digits, IsNumberChar c := by
    intro digits hdigits
    match digits with
    | [] => exact hdigits
    | [first] => exact hdigits
    | first :: second :: rest =>
      obtain ⟨hfirst, hrest⟩ := List.forall_mem_cons.1 hdigits
      exact List.forall_mem_cons.2 ⟨hfirst, List.forall_mem_cons.2 ⟨.inr (by decide), hrest⟩⟩
  unfold scientific at h
  simp only [List.mem_append] at h
  rcases h with (hdigit | hmark) | hpower
  · exact hleading d.digits (fun c hc => isNumberChar_of_mem_digits hc) c hdigit
  · have hmarks : c = 'e' ∨ c = '-' ∨ c = '+' := by
      split at hmark
      · exact (List.mem_cons.1 hmark).imp_right fun h => .inl (List.mem_singleton.1 h)
      · exact (List.mem_cons.1 hmark).imp_right fun h => .inr (List.mem_singleton.1 h)
    rcases hmarks with rfl | rfl | rfl
    · exact .inr (by decide)
    · exact .inr (by decide)
    · exact .inr (by decide)
  · exact isNumberChar_of_mem_digits hpower

end Decimal

/-- **Finite numbers are written with the characters of numbers.** -/
theorem NumberStyle.isNumberChar_of_mem_write {style : NumberStyle}
    (hzero : ∀ c ∈ style.negativeZero, IsNumberChar c) {x : Binary64} (hx : x.isFinite = true)
    {c : Char} (h : c ∈ style.write x) : IsNumberChar c := by
  cases x with
  | nan => exact nomatch hx
  | infinite negative => exact nomatch hx
  | finite negative rank =>
    rw [write] at h
    split at h
    · split at h
      · exact hzero c h
      · rw [List.mem_singleton.1 h]
        exact isNumberChar_zero
    · simp only [List.mem_append] at h
      rcases h with hsign | hnumber
      · unfold write.sign at hsign
        split at hsign
        · rw [List.mem_singleton.1 hsign]
          exact .inr (by decide)
        · exact nomatch hsign
      · split at hnumber
        · exact Decimal.isNumberChar_of_mem_scientific hnumber
        · exact Decimal.isNumberChar_of_mem_positional hnumber

theorem Binary64.isNumberChar_of_mem_cssText {x : Binary64} (hx : x.isFinite = true) {c : Char}
    (h : c ∈ x.cssText.toList) : IsNumberChar c := by
  have hzero : ∀ c ∈ NumberStyle.css.negativeZero, IsNumberChar c :=
    List.forall_mem_singleton.2 isNumberChar_zero
  unfold Binary64.cssText at h
  rw [String.toList_ofList] at h
  exact NumberStyle.isNumberChar_of_mem_write hzero hx h

/-- **The characters of every number**, finite or not. -/
theorem Binary64.isNumberChar_or_mem_of_mem_cssText {x : Binary64} {c : Char}
    (h : c ∈ x.cssText.toList) : IsNumberChar c ∨ c ∈ "NaNinf".toList := by
  have hnan : "NaN".toList ⊆ "NaNinf".toList := by decide
  have hinf : "inf".toList ⊆ "NaNinf".toList := by decide
  cases x with
  | nan => exact .inr (hnan h)
  | finite negative rank => exact .inl (isNumberChar_of_mem_cssText rfl h)
  | infinite negative =>
    cases negative with
    | false => exact .inr (hinf h)
    | true =>
      rcases List.mem_cons.1 h with rfl | h
      · exact .inl (.inr List.mem_cons_self)
      · exact .inr (hinf h)

theorem Binary64.mem_cssText_cases {x : Binary64} {c : Char} (h : c ∈ x.cssText.toList) :
    c.isAlphanum = true ∨ c ∈ ['-', '+', '.'] := by
  have hword : ∀ d ∈ "NaNinf".toList, d.isAlphanum = true := List.all_eq_true.1 (by decide)
  rcases isNumberChar_or_mem_of_mem_cssText h with (hdigit | hmark) | hletter
  · refine .inl ?_
    unfold Char.isAlphanum
    rw [hdigit, Bool.or_true]
  · simp only [List.mem_cons, List.not_mem_nil, or_false] at hmark
    rcases hmark with rfl | rfl | rfl | rfl <;> decide
  · exact .inl (hword c hletter)

/-- A number begins with no letter of its words but the first. -/
theorem Binary64.head?_cssText_ne (x : Binary64) : ∀ c ∈ x.cssText.toList.head?, c ≠ 'f' := by
  rintro c hc rfl
  cases x with
  | nan => exact nomatch hc
  | finite negative rank =>
    have hchar := isNumberChar_of_mem_cssText rfl (List.mem_of_head? hc)
    unfold IsNumberChar at hchar
    exact absurd hchar (by decide)
  | infinite negative => cases negative <;> exact nomatch hc

end FluidClamp
