/-
  FluidClamp.Proofs.Markup.StyleSheet
  ───────────────────────────────────
  **THE STYLE SHEET OF A TEXT CAN BE READ BACK.**

  Whatever a text mentions and a configuration names, no mark of a style sheet
  gets into a part of a rule:

    • the selector is an escaped class, and a class ends in a letter, a digit or
      a bracket, so trimming leaves it as it is,
    • properties are texts of the table,
    • values are texts of the table around the text of a fluid value, which has
      the characters of `FluidValue.frame` and of numbers.

  So either layout is read as the rules of the listing, in its order.
-/
import FluidClamp.Markup
import FluidClamp.Proofs.Css.Reading
import FluidClamp.Proofs.Markup.Tokens
import FluidClamp.Proofs.RuleSet.Origin
import FluidClamp.Proofs.RuleSet.StyleSheet
import FluidClamp.Proofs.Utility.Templates

namespace FluidClamp

open Css (IsPart propertyMarks valueMarks)

/-! ## §1. Declarations. -/

/-- Filled with a text without marks, the template is a declaration without
marks. -/
def Template.IsPlain : Template → Prop
  | .value property => IsPart propertyMarks property
  | .wrapped property before after =>
      IsPart propertyMarks property ∧ (∃ c ∈ before.toList.head?, isBlank c = false) ∧
        (∃ c ∈ after.toList.getLast?, isBlank c = false) ∧
        ∀ mark ∈ valueMarks, mark ∉ before.toList ∧ mark ∉ after.toList
  | .fixed property text => IsPart propertyMarks property ∧ IsPart valueMarks text

instance : DecidablePred Template.IsPlain
  | .value _ => inferInstanceAs (Decidable (IsPart _ _))
  | .wrapped _ _ _ => inferInstanceAs (Decidable (_ ∧ _))
  | .fixed _ _ => inferInstanceAs (Decidable (_ ∧ _))

theorem Utility.isPlain_of_mem {utility : Utility} (h : utility ∈ table) :
    ∀ template ∈ utility.body.templates, template.IsPlain := by
  have htable : ∀ utility ∈ table, ∀ template ∈ utility.body.templates, template.IsPlain := by
    decide +kernel
  exact htable utility h

theorem Template.IsPlain.isReadable_fill {template : Template} (h : template.IsPlain)
    {value : String} (hvalue : IsPart valueMarks value) : (template.fill value).IsReadable := by
  cases template with
  | value property => exact ⟨h, hvalue⟩
  | wrapped property before after =>
    obtain ⟨hproperty, hfirst, hlast, hmarks⟩ := h
    refine ⟨hproperty, ?_, ?_⟩
    · show IsTrimmed isBlank (before ++ value ++ after).toList
      rw [String.toList_append, String.toList_append]
      exact isTrimmed_append hfirst hlast _
    · intro mark hmark
      obtain ⟨hbefore, hafter⟩ := hmarks mark hmark
      show mark ∉ (before ++ value ++ after).toList
      simp only [String.toList_append, List.mem_append, hbefore, hafter,
        hvalue.not_mem mark hmark, or_self, not_false_iff]
  | fixed property text => exact ⟨h.1, h.2⟩

/-! ## §2. Values. -/

/-- Numbers have no blanks and no marks. -/
theorem Binary64.not_isBlank_of_mem_cssText {x : Binary64} {c : Char}
    (h : c ∈ x.cssText.toList) : isBlank c = false ∧ c ∉ valueMarks := by
  have hsigns : ∀ d ∈ ['-', '+', '.'], isBlank d = false ∧ d ∉ valueMarks := by decide
  have hmarks : ∀ d ∈ valueMarks, d.isAlphanum = false := by decide
  rcases mem_cssText_cases h with halphanum | hsign
  · have hdelimiter := Markup.isDelimiter_of_isAlphanum halphanum
    unfold Markup.isDelimiter at hdelimiter
    refine ⟨(Bool.or_eq_false_iff.1 hdelimiter).1, ?_⟩
    intro hmark
    rw [hmarks c hmark] at halphanum
    exact nomatch halphanum
  · exact hsigns c hsign

/-- **The text of a value is a part of its own in a rule.** -/
theorem FluidValue.isPart_text (value : FluidValue Binary64) :
    IsPart valueMarks (value.text Binary64.cssText) := by
  constructor
  · -- a constant has no blank at all, and a clamp begins and ends with its own characters
    cases value with
    | constant size =>
      have hunit : ∀ c ∈ size.unit.text.toList, isBlank c = false := by
        cases size.unit <;> decide
      apply isTrimmed_of_forall
      unfold text
      rw [String.toList_append, List.forall_mem_append]
      exact ⟨fun c hc => (Binary64.not_isBlank_of_mem_cssText hc).1, hunit⟩
    | clamp low slope offset high unit =>
      have hends : text Binary64.cssText (.clamp low slope offset high unit) =
          "clamp(" ++ (low.cssText ++ unit.text ++ ", " ++ slope.cssText ++ "vw" ++
            text.offsetText Binary64.cssText unit offset ++ ", " ++ high.cssText ++ unit.text) ++
          ")" := by
        unfold text
        simp only [String.append_assoc]
      rw [hends, String.toList_append, String.toList_append]
      exact isTrimmed_append (by decide) (by decide) _
  · intro mark hmark hmem
    have hframe : ∀ c ∈ frame, c ∉ valueMarks := by decide
    have hnumbers : ∀ x ∈ value.numbers, ∀ c ∈ x.cssText.toList, c ∉ valueMarks := by
      intro x _ c hc
      exact (Binary64.not_isBlank_of_mem_cssText hc).2
    exact forall_mem_text hframe hnumbers mark hmem hmark

/-! ## §3. Selectors. -/

namespace Markup

/-- A class ends in a letter, a digit or a bracket. -/
theorem IsClass.getLast?_ne {text : List Char} (h : IsClass text) :
    ∀ c ∈ text.getLast?, c ≠ ',' := by
  rintro c hc rfl
  have hlast : text.getLast? ≠ some ']' := by
    intro hbracket
    exact absurd (hc.symm.trans hbracket) (by decide)
  exact h.not_mem_comma hlast (List.mem_of_getLast? hc)

/-- Only a comma is written with a blank behind it. -/
theorem isBlank_getLast?_escape {text : List Char} (h : IsClass text) :
    ∃ c ∈ (Css.escape text).getLast?, isBlank c = false := by
  obtain ⟨front, last, rfl⟩ := List.eq_nil_or_concat' text |>.resolve_left h.ne_nil
  have hcomma := h.getLast?_ne last (by rw [List.getLast?_concat]; rfl)
  have hdelimiter := h.isDelimiter_eq_false last (List.mem_append_right _ List.mem_cons_self)
  refine ⟨last, ?_, ?_⟩
  · -- escaped or not, the last character is written last
    have hlast : Css.escape [last] = Css.escapeChar last := by simp [Css.escape]
    rw [Css.escape_append, hlast, List.getLast?_append]
    unfold Css.escapeChar
    rw [if_neg hcomma]
    split <;> rfl
  · unfold isDelimiter at hdelimiter
    exact (Bool.or_eq_false_iff.1 hdelimiter).1

/-- The selector of a class is told apart from what follows it. -/
theorem isReadable_rule {text css : String} {utility : Utility} (hmem : utility ∈ Utility.table)
    (hclass : IsClass text.toList) (hcss : IsPart valueMarks css) :
    (utility.rule text css).IsReadable := by
  have htail := utility.body.selectorTail_cases
  have hselector : (utility.rule text css).selector.toList =
      ['.'] ++ Css.escape text.toList ++ utility.body.selectorTail.toList := by
    simp [Utility.rule]
  have hdot : Css.IsSelector ['.'] := Css.isSelector_singleton (by decide) (by decide)
  have hdotName := hdot.append (Css.isSelector_escape text.toList)
  constructor
  · rw [hselector]
    apply hdotName.append
    apply Css.isSelector_of_forall
    rcases htail with htail | htail <;> rw [htail] <;> decide
  · rw [hselector]
    rcases htail with htail | htail
    · have hends : IsTrimmed isBlank (['.'] ++ [] ++ Css.escape text.toList) :=
        isTrimmed_append (by decide) (isBlank_getLast?_escape hclass) []
      simpa [htail] using hends
    · rw [htail]
      exact isTrimmed_append (by decide) (by decide) _
  · intro declaration hdeclaration
    obtain ⟨template, htemplate, rfl⟩ := Utility.mem_declarations_rule_iff.1 hdeclaration
    exact (Utility.isPlain_of_mem hmem template htemplate).isReadable_fill hcss

/-! ## §4. The whole style sheet. -/

/-- A rule of a class that a text mentions can be read. -/
theorem isReadable_of_resolve {config : Config} {text : String} {rule : Css.Rule}
    (hclass : IsClass text.toList) (h : config.resolve text = .ok (some rule)) :
    rule.IsReadable := by
  obtain ⟨className, shorthand, css, hparse, -, hcss, rfl⟩ := Config.exists_of_resolve_eq_ok h
  obtain ⟨span, value, -, rfl⟩ := Config.exists_value_of_evaluate hcss
  exact isReadable_rule (ClassName.utility_mem_table hparse) hclass value.isPart_text

/-- **The style sheet of some classes is read as their rules**, in either layout. -/
theorem read_css_ofClasses (config : Config) {texts : List String}
    (hclasses : ∀ text ∈ texts, IsClass text.toList) (layout : Css.Layout) :
    Css.StyleSheet.read ((RuleSet.ofClasses config texts).css layout) =
      some ((RuleSet.ofClasses config texts).lines.map RuleSet.Line.rule) := by
  have hlisting := (RuleSet.collects_ofClasses config texts).isListing
  have hrule : ∀ rule ∈ (RuleSet.ofClasses config texts).lines.map RuleSet.Line.rule,
      rule.declarations ≠ [] ∧ rule.IsReadable := by
    rintro rule hmem
    obtain ⟨line, hline, rfl⟩ := List.mem_map.1 hmem
    obtain ⟨htext, hresolve, -⟩ := (hlisting.mem_iff line).1 hline
    exact ⟨Config.declarations_ne_nil_of_resolve hresolve,
      isReadable_of_resolve (hclasses line.text htext) hresolve⟩
  rw [RuleSet.css_eq_render]
  have hsheet := Css.StyleSheet.isSheet_render layout fun rule hmem => (hrule rule hmem).1
  exact hsheet.read_eq fun rule hmem => (hrule rule hmem).2

/-- **Both layouts carry the same style sheet, and lose nothing.**  Whatever the
configuration and the text, either style sheet is read as the rules of the classes
that the text mentions: each class with a rule once, by the place of its utility and
then by its name, with its selector and all its declarations. -/
theorem read_css_eq_listing (config : Config) (content : String) :
    ∃ lines, RuleSet.IsListing config (classes content) lines ∧
      ∀ layout, Css.StyleSheet.read (css config layout content) =
        some (lines.map RuleSet.Line.rule) := by
  refine ⟨_, (RuleSet.collects_ofClasses config (classes content)).isListing, ?_⟩
  intro layout
  exact read_css_ofClasses config
    (fun text htext => isClass_of_mem_found (mem_classes_iff.1 htext)) layout

end Markup

end FluidClamp
