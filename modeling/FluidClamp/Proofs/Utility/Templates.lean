/-
  FluidClamp.Proofs.Utility.Templates
  ───────────────────────────────────
  **EVERY UTILITY IS A LIST OF TEMPLATES.**

  The three kinds of utilities declare the same sort of thing: templates, filled
  with one value (`declarations_eq_map`).  What holds of every template in the
  table is checked once, on the table, and what holds of the declarations of all
  classes follows from it.  Each utility uses its value somewhere, so a rule
  tells the value that it was made of (`rule_injective`).
-/
import FluidClamp.Proofs.ClassName.Place

namespace FluidClamp

/-! ## §1. Templates of a utility. -/

/-- What is filled with the value. -/
def UtilityBody.templates : UtilityBody → List Template
  | .properties names => names.map .value
  | .element templates | .siblings templates => templates

theorem UtilityBody.declarations_eq_map (body : UtilityBody) (value : String) :
    body.declarations value = body.templates.map (Template.fill value) := by
  cases body with
  | properties names =>
    show names.map _ = (names.map Template.value).map _
    rw [List.map_map]
    rfl
  | element templates => rfl
  | siblings templates => rfl

theorem Utility.mem_declarations_rule_iff {utility : Utility} {text value : String}
    {declaration : Css.Declaration} :
    declaration ∈ (utility.rule text value).declarations ↔
      ∃ template ∈ utility.body.templates, template.fill value = declaration := by
  show declaration ∈ utility.body.declarations value ↔ _
  rw [UtilityBody.declarations_eq_map, List.mem_map]

/-- No rule is empty. -/
theorem Utility.declarations_rule_ne_nil {utility : Utility} (h : utility ∈ table)
    (text value : String) : (utility.rule text value).declarations ≠ [] := by
  have htable : ∀ utility ∈ table, utility.body.templates ≠ [] := by decide +kernel
  show utility.body.declarations value ≠ []
  rw [UtilityBody.declarations_eq_map]
  exact List.map_eq_nil_iff.not.2 (htable utility h)

/-- There is one text that may follow a class in a selector. -/
theorem UtilityBody.selectorTail_cases (body : UtilityBody) :
    body.selectorTail = "" ∨ body.selectorTail = " > :not([hidden]) ~ :not([hidden])" := by
  cases body with
  | properties names => exact .inl rfl
  | element templates => exact .inl rfl
  | siblings templates => exact .inr rfl

/-! ## §2. The value in a rule. -/

/-- The template has a place for the value. -/
def Template.UsesValue : Template → Prop
  | .value _ | .wrapped _ _ _ => True
  | .fixed _ _ => False

instance : DecidablePred Template.UsesValue
  | .value _ | .wrapped _ _ _ => .isTrue trivial
  | .fixed _ _ => .isFalse id

theorem Template.fill_injective {template : Template} (h : template.UsesValue) {a b : String}
    (heq : template.fill a = template.fill b) : a = b := by
  have hvalue := congrArg Css.Declaration.value heq
  cases template with
  | value property => exact hvalue
  | wrapped property before after =>
    replace hvalue : before ++ a ++ after = before ++ b ++ after := hvalue
    rwa [String.append_left_inj, String.append_right_inj] at hvalue
  | fixed property text => exact h.elim

/-- **A rule tells its value.** -/
theorem Utility.rule_injective {utility : Utility} (h : utility ∈ table) {text a b : String}
    (heq : utility.rule text a = utility.rule text b) : a = b := by
  have htable : ∀ utility ∈ table, ∃ template ∈ utility.body.templates, template.UsesValue := by
    decide +kernel
  obtain ⟨template, hmem, huses⟩ := htable utility h
  have hdeclarations : utility.body.declarations a = utility.body.declarations b :=
    congrArg Css.Rule.declarations heq
  rw [UtilityBody.declarations_eq_map, UtilityBody.declarations_eq_map, List.map_inj_left]
    at hdeclarations
  exact template.fill_injective huses (hdeclarations template hmem)

end FluidClamp
