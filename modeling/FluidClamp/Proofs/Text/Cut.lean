/-
  FluidClamp.Proofs.Text.Cut
  ──────────────────────────
  **WHERE A TEXT IS CUT, AND WHAT TRIMMING LEAVES.**

  `cutAt?` finds the first occurrence of its mark.  A mark with a character that
  stands nowhere before it is found where it was put, and a text that neither
  begins nor ends with a blank is what trimming leaves of it, whatever blanks
  stand around it.
-/
import FluidClamp.Text.Cut
import Mathlib.Data.List.Basic
import Mathlib.Data.List.TakeWhile

namespace FluidClamp

/-! ## §1. Properties of the characters of a text.

What holds of the characters of a text is decided along the text.  There are also
instances that go over all characters there are; these come first. -/

section

variable {p : Char → Prop} [DecidablePred p]

instance decidableForallMemText (text : List Char) : Decidable (∀ c ∈ text, p c) :=
  text.decidableBAll p

instance decidableForallMemEnd (o : Option Char) : Decidable (∀ c ∈ o, p c) :=
  o.decidableForallMem

instance decidableExistsMemEnd (o : Option Char) : Decidable (∃ c ∈ o, p c) :=
  o.decidableExistsMem

end

/-! ## §2. The place of a mark. -/

/-- **A mark is found where it was put**, if its last character stands nowhere
before it. -/
theorem cutAt?_append {front left : List Char} {last : Char} (hfront : last ∉ front)
    (hleft : last ∉ left) (right : List Char) :
    cutAt? (front ++ [last]) (left ++ (front ++ [last]) ++ right) = some (left, right) := by
  induction left with
  | nil =>
    cases front with
    | nil => simp [cutAt?, after?]
    | cons c front =>
      have hafter : after? (c :: front ++ [last]) (c :: (front ++ [last] ++ right)) = some right :=
        after?_append (c :: front ++ [last]) right
      show cutAt? (c :: front ++ [last]) (c :: (front ++ [last] ++ right)) = _
      unfold cutAt?
      rw [hafter]
  | cons x left ih =>
    have hnone : after? (front ++ [last]) (x :: left ++ (front ++ [last]) ++ right) = none := by
      rw [Option.eq_none_iff_forall_ne_some]
      intro rest hrest
      -- an occurrence at the front would have its last character too early
      have hsame := after?_eq_some_iff.1 hrest
      have hbefore : last ∉ x :: left ++ front := by
        rw [List.mem_append]
        exact not_or.2 ⟨hleft, hfront⟩
      have hplace := congrArg (List.idxOf last) hsame
      simp only [← List.append_assoc] at hplace
      rw [List.append_assoc (x :: left ++ front), List.append_assoc front,
        List.idxOf_append_of_notMem hbefore, List.idxOf_append_of_notMem hfront] at hplace
      simp at hplace
      omega
    have htail := ih fun hmem => hleft (List.mem_cons_of_mem x hmem)
    rw [List.cons_append, List.cons_append] at hnone ⊢
    unfold cutAt?
    rw [hnone, htail]
    rfl

/-- A single character is found where it stands first. -/
theorem cutAt?_singleton_append {left : List Char} {mark : Char} (h : mark ∉ left)
    (right : List Char) : cutAt? [mark] (left ++ mark :: right) = some (left, right) := by
  have hfront : mark ∉ ([] : List Char) := List.not_mem_nil
  have hcut := cutAt?_append hfront h right
  simpa using hcut

/-! ## §3. Trimming. -/

/-- Neither the first nor the last character is a blank. -/
def IsTrimmed (isBlank : Char → Bool) (text : List Char) : Prop :=
  (∀ c ∈ text.head?, isBlank c = false) ∧ ∀ c ∈ text.getLast?, isBlank c = false

instance (isBlank : Char → Bool) (text : List Char) : Decidable (IsTrimmed isBlank text) :=
  inferInstanceAs (Decidable (_ ∧ _))

theorem isTrimmed_of_forall {isBlank : Char → Bool} {text : List Char}
    (h : ∀ c ∈ text, isBlank c = false) : IsTrimmed isBlank text :=
  ⟨fun c hc => h c (List.mem_of_head? hc), fun c hc => h c (List.mem_of_getLast? hc)⟩

/-- Only the ends of a text matter. -/
theorem isTrimmed_append {isBlank : Char → Bool} {before after : List Char}
    (hfirst : ∃ c ∈ before.head?, isBlank c = false)
    (hlast : ∃ c ∈ after.getLast?, isBlank c = false) (text : List Char) :
    IsTrimmed isBlank (before ++ text ++ after) := by
  obtain ⟨first, hbefore, hfirst⟩ := hfirst
  obtain ⟨last, hafter, hlast⟩ := hlast
  constructor
  · intro c hc
    rw [List.append_assoc, List.head?_append, hbefore] at hc
    exact Option.some.inj hc ▸ hfirst
  · intro c hc
    rw [List.getLast?_append, hafter] at hc
    exact Option.some.inj hc ▸ hlast

theorem dropWhile_append_of_head? {isBlank : Char → Bool} {text : List Char}
    (h : ∀ c ∈ text.head?, isBlank c = false) {before : List Char}
    (hbefore : ∀ c ∈ before, isBlank c = true) : (before ++ text).dropWhile isBlank = text := by
  rw [List.dropWhile_append_of_pos hbefore]
  cases text with
  | nil => rfl
  | cons c text =>
    have hc : ¬ isBlank c = true := Bool.eq_false_iff.1 (h c rfl)
    rw [List.dropWhile_cons_of_neg hc]

/-- **Trimming takes the blanks around a text away**, and no more. -/
theorem trim_append {isBlank : Char → Bool} {text : List Char} (h : IsTrimmed isBlank text)
    {before after : List Char} (hbefore : ∀ c ∈ before, isBlank c = true)
    (hafter : ∀ c ∈ after, isBlank c = true) : trim isBlank (before ++ text ++ after) = text := by
  have hback : ∀ c ∈ after.reverse, isBlank c = true := by
    intro c hc
    exact hafter c (List.mem_reverse.1 hc)
  have hlast : ∀ c ∈ text.reverse.head?, isBlank c = false := by
    intro c hc
    rw [List.head?_reverse] at hc
    exact h.2 c hc
  unfold trim
  cases text with
  | nil =>
    have hall : ∀ c ∈ before ++ [] ++ after, isBlank c = true := by
      rw [List.append_nil]
      exact List.forall_mem_append.2 ⟨hbefore, hafter⟩
    rw [List.dropWhile_eq_nil_iff.2 hall]
    rfl
  | cons c text =>
    have hfirst : ∀ d ∈ (c :: text ++ after).head?, isBlank d = false := h.1
    rw [List.append_assoc, dropWhile_append_of_head? hfirst hbefore, List.reverse_append,
      dropWhile_append_of_head? hlast hback, List.reverse_reverse]

end FluidClamp
