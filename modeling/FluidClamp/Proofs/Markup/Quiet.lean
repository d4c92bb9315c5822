/-
  FluidClamp.Proofs.Markup.Quiet
  ──────────────────────────────
  **TEXTS IN WHICH NO CLASS IS FOUND.**

  Two properties of a text, both of it in front of any rest:

      inert    in the middle of a run nothing is found in it
      quiet    nothing is found in it, wherever it stands

  A run without delimiters is inert, and an inert text is quiet if it cannot be
  the beginning of a class.  Both are kept by appending, and blanks before a quiet
  text leave it quiet; so a style sheet is quiet in either layout if its
  selectors, properties and values are (`foundFrom_sheet`).
-/
import FluidClamp.Proofs.Css.Reading
import FluidClamp.Proofs.Markup.Join

namespace FluidClamp

/-! ## §1. Texts that are apart. -/

/-- Neither text begins with the other. -/
def Apart (s t : List Char) : Prop := ¬ s <+: t ∧ ¬ t <+: s

instance (s t : List Char) : Decidable (Apart s t) := inferInstanceAs (Decidable (_ ∧ _))

/-- What follows does not bring them together. -/
theorem Apart.not_prefix_append {s t : List Char} (h : Apart s t) (rest : List Char) :
    ¬ s <+: t ++ rest := by
  intro hprefix
  rcases List.prefix_or_prefix_of_prefix hprefix (List.prefix_append t rest) with hst | hts
  · exact h.1 hst
  · exact h.2 hts

theorem apart_cons {c d : Char} (h : c ≠ d) (s t : List Char) : Apart (c :: s) (d :: t) := by
  constructor
  · intro hprefix
    exact h (List.cons_prefix_cons.1 hprefix).1
  · intro hprefix
    exact h (List.cons_prefix_cons.1 hprefix).1.symm

theorem apart_cons_self_iff {c : Char} {s t : List Char} :
    Apart (c :: s) (c :: t) ↔ Apart s t := by
  unfold Apart
  rw [List.prefix_cons_inj, List.prefix_cons_inj]

namespace Markup

open ClassName (start)

/-! ## §2. Inert and quiet texts. -/

/-- In the middle of a run nothing is found in the text. -/
def IsInert (text : List Char) : Prop :=
  ∀ rest, foundFrom false (text ++ rest) = foundFrom false rest

/-- **Nothing is found in the text**, wherever it stands. -/
def IsQuiet (text : List Char) : Prop :=
  ∀ isStart rest, foundFrom isStart (text ++ rest) = foundFrom false rest

theorem isInert_nil : IsInert [] := fun _ => rfl

theorem isInert_of_forall {text : List Char} (h : ∀ c ∈ text, isDelimiter c = false) :
    IsInert text := foundFrom_append_of_not_delimiter h

theorem IsQuiet.isInert {text : List Char} (h : IsQuiet text) : IsInert text := h false

theorem IsInert.append {s t : List Char} (hs : IsInert s) (ht : IsInert t) : IsInert (s ++ t) := by
  intro rest
  rw [List.append_assoc, hs, ht]

theorem IsQuiet.append {s t : List Char} (hs : IsQuiet s) (ht : IsInert t) : IsQuiet (s ++ t) := by
  intro isStart rest
  rw [List.append_assoc, hs, ht]

/-- Where no class can begin, the start of a text is a place like others. -/
theorem foundFrom_of_apart {text : List Char} (h : Apart start.toList text) (isStart : Bool)
    (rest : List Char) : foundFrom isStart (text ++ rest) = foundFrom false (text ++ rest) := by
  cases isStart with
  | false => rfl
  | true =>
    apply foundFrom_of_takeClass_eq_none
    rw [Option.eq_none_iff_forall_ne_some]
    rintro ⟨taken, behind⟩ htake
    obtain ⟨htext, word, words, value, -, -, -, rfl⟩ := isClass_of_takeClass htake
    apply h.not_prefix_append rest
    rw [htext, List.append_assoc]
    exact List.prefix_append _ _

theorem IsInert.isQuiet {text : List Char} (h : IsInert text) (hapart : Apart start.toList text) :
    IsQuiet text := by
  intro isStart rest
  rw [foundFrom_of_apart hapart, h]

/-- A run is quiet if it begins with another letter than classes do. -/
theorem isQuiet_of_forall {text : List Char} (h : ∀ c ∈ text, isDelimiter c = false)
    (hhead : ∃ c ∈ text.head?, c ≠ 'f') : IsQuiet text := by
  obtain ⟨c, hc, hne⟩ := hhead
  cases text with
  | nil => exact nomatch hc
  | cons d text =>
    obtain rfl := Option.some.inj hc
    exact (isInert_of_forall h).isQuiet (apart_cons hne.symm _ _)

theorem not_f_of_isDelimiter {c : Char} (h : isDelimiter c = true) : 'f' ≠ c := by
  rintro rfl
  exact absurd h (by decide)

/-- Delimiters may stand before a quiet text. -/
theorem IsQuiet.cons {text : List Char} (h : IsQuiet text) {c : Char}
    (hc : isDelimiter c = true) : IsQuiet (c :: text) := by
  have hinert : IsInert (c :: text) := by
    intro rest
    rw [List.cons_append, foundFrom_delimiter hc, h]
  exact hinert.isQuiet (apart_cons (not_f_of_isDelimiter hc) _ _)

/-! ## §3. A check for fixed texts. -/

/-- No class can begin behind a delimiter of the text. -/
def isInertText : List Char → Bool
  | [] => true
  | c :: text => (!isDelimiter c || decide (Apart start.toList text)) && isInertText text

/-- No class can begin at the start of the text either. -/
def isQuietText (text : List Char) : Bool := decide (Apart start.toList text) && isInertText text

theorem isInert_of_isInertText {text : List Char} (h : isInertText text = true) :
    IsInert text := by
  -- what stands behind a delimiter has to be quiet, behind another character inert
  induction text with
  | nil => exact isInert_nil
  | cons c text ih =>
    rw [isInertText, Bool.and_eq_true, Bool.or_eq_true, Bool.not_eq_true', decide_eq_true_eq] at h
    obtain ⟨hc, htext⟩ := h
    rcases hc with hc | hapart
    · exact (isInert_of_forall (List.forall_mem_singleton.2 hc)).append (ih htext)
    · have hquiet := (ih htext).isQuiet hapart
      cases hc : isDelimiter c with
      | false => exact (isInert_of_forall (List.forall_mem_singleton.2 hc)).append (ih htext)
      | true => exact (hquiet.cons hc).isInert

theorem isQuiet_of_isQuietText {text : List Char} (h : isQuietText text = true) :
    IsQuiet text := by
  rw [isQuietText, Bool.and_eq_true, decide_eq_true_eq] at h
  exact (isInert_of_isInertText h.2).isQuiet h.1

/-! ## §4. Style sheets. -/

open Css

theorem isDelimiter_of_isBlank {c : Char} (h : isBlank c = true) : isDelimiter c = true := by
  unfold isDelimiter
  rw [h, Bool.true_or]

theorem IsQuiet.indent {text : List Char} (h : IsQuiet text) {blanks : List Char}
    (hblanks : IsBlanks blanks) : IsQuiet (blanks ++ text) := by
  induction blanks with
  | nil => exact h
  | cons c blanks ih =>
    obtain ⟨hc, hrest⟩ := List.forall_mem_cons.1 hblanks
    exact (ih hrest).cons (isDelimiter_of_isBlank hc)

/-- Nothing is found in the property and the value. -/
structure IsQuietDeclaration (d : Declaration) : Prop where
  property : IsQuiet d.property.toList
  value : IsQuiet d.value.toList

/-- Nothing is found in the selector and the declarations. -/
structure IsQuietRule (rule : Rule) : Prop where
  selector : IsQuiet rule.selector.toList
  declarations : ∀ d ∈ rule.declarations, IsQuietDeclaration d

/-- Blanks behind a part are followed by a mark. -/
theorem IsQuietDeclaration.isQuiet_append {d : Declaration} (h : IsQuietDeclaration d)
    {text : List Char} (htext : d.StandsIn text) {mark : Char} (hmark : mark ∈ valueMarks) :
    IsQuiet (text ++ [mark]) := by
  obtain ⟨before, between, after, hbefore, hbetween, hafter, rfl⟩ := htext
  have hmarkQuiet : IsQuiet [mark] := by
    have hmarks : ∀ mark ∈ valueMarks, isQuietText [mark] = true := by decide
    exact isQuiet_of_isQuietText (hmarks mark hmark)
  have hcolon : IsQuiet [':'] := isQuiet_of_isQuietText (by decide)
  have hproperty := h.property.indent hbefore
  have hvalue := h.value.indent hbetween
  have hend := hmarkQuiet.indent hafter
  have hquiet := hproperty.append (hcolon.append (hvalue.append hend.isInert).isInert).isInert
  simpa using hquiet

theorem isQuiet_append_brace {all : List Declaration} {text : List Char} (hbody : IsBody all text)
    (h : ∀ d ∈ all, IsQuietDeclaration d) : IsQuiet (text ++ ['}']) := by
  induction hbody with
  | last hd =>
    exact (h _ List.mem_cons_self).isQuiet_append hd (by decide)
  | @more d piece all rest hd _ ih =>
    obtain ⟨hone, hrest⟩ := List.forall_mem_cons.1 h
    have hpiece := hone.isQuiet_append hd (show ';' ∈ valueMarks by decide)
    have hquiet := hpiece.append (ih hrest).isInert
    simpa using hquiet

theorem IsQuietRule.isQuiet {rule : Rule} (h : IsQuietRule rule) {text : List Char}
    (htext : rule.StandsIn text) : IsQuiet text := by
  obtain ⟨before, after, body, hbefore, hafter, hbody, rfl⟩ := htext
  have hbrace : IsQuiet ['{'] := isQuiet_of_isQuietText (by decide)
  have hselector := h.selector.indent hbefore
  have hopen := hbrace.indent hafter
  have hclose := isQuiet_append_brace hbody h.declarations
  have hquiet := hselector.append (hopen.append hclose.isInert).isInert
  simpa using hquiet

theorem foundFrom_blanks {text : List Char} (h : IsBlanks text) (isStart : Bool) :
    foundFrom isStart text = [] := by
  induction text generalizing isStart with
  | nil => exact foundFrom_nil isStart
  | cons c text ih =>
    obtain ⟨hc, hrest⟩ := List.forall_mem_cons.1 h
    have hdelimiter := isDelimiter_of_isBlank hc
    have hapart : Apart start.toList [c] := apart_cons (not_f_of_isDelimiter hdelimiter) _ _
    have hplace := foundFrom_of_apart hapart isStart text
    rw [List.singleton_append] at hplace
    rw [hplace, foundFrom_delimiter hdelimiter, ih hrest]

/-- **In a style sheet of quiet rules nothing is found**, however it is laid out. -/
theorem foundFrom_sheet {rules : List Rule} {text : List Char}
    (hsheet : StyleSheet.IsSheet rules text) (h : ∀ rule ∈ rules, IsQuietRule rule)
    (isStart : Bool) : foundFrom isStart text = [] := by
  -- only the first rule can stand at the start of the text
  induction hsheet generalizing isStart with
  | nil hblanks => exact foundFrom_blanks hblanks isStart
  | @cons rule piece rules rest hrule _ ih =>
    obtain ⟨hone, hrest⟩ := List.forall_mem_cons.1 h
    rw [hone.isQuiet hrule, ih hrest]

end Markup

end FluidClamp
