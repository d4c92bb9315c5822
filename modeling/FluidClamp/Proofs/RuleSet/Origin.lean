/-
  FluidClamp.Proofs.RuleSet.Origin
  ────────────────────────────────
  **WHERE A RULE COMES FROM.**

  A class is taken apart, its shorthand is looked up or read, and the utility puts
  the value of the shorthand into its templates.  `resolve` does these steps one
  after the other, so a rule says that each of them succeeded
  (`exists_of_resolve_eq_ok`), and a value says which span it is the value of.
-/
import FluidClamp.Proofs.ClassName.Splits
import FluidClamp.Proofs.RuleSet.Listing
import FluidClamp.Proofs.Shorthand.Outcome
import FluidClamp.Proofs.Span.Finite
import FluidClamp.Proofs.Utility.Templates

namespace FluidClamp

/-- A value is written from the span that its shorthand describes. -/
theorem Config.exists_value_of_evaluate {config : Config} {shorthand css : String}
    (h : config.evaluate shorthand = .ok css) :
    ∃ span value, Shorthand.Describes config.screens.entries shorthand span ∧
      css = FluidValue.text Binary64.cssText value := by
  unfold evaluate Screens.evaluate at h
  split at h
  · exact nomatch h
  · next span hspan =>
    split at h
    · exact nomatch h
    · next text htext =>
      obtain rfl := Except.ok.inj h
      obtain ⟨-, value, -, rfl⟩ := Span.css_eq_ok htext
      exact ⟨span, value, (Shorthand.parse_eq_ok_iff _ _ _).1 hspan, rfl⟩

namespace Config

variable {config : Config} {text : String}

/-- A class with a shorthand comes to what the shorthand comes to. -/
theorem resolve_of_shorthandOf? {className : ClassName} {shorthand : String}
    (hparse : ClassName.parse? text = some className)
    (hshorthand : config.shorthandOf? className = some shorthand) :
    config.resolve text = config.ruleOf className.utility text shorthand := by
  unfold resolve ruleOf
  rw [hparse]
  simp only [hshorthand]
  cases config.evaluate shorthand <;> rfl

/-- **Every rule is that of a class whose shorthand has a value.** -/
theorem exists_of_resolve_eq_ok {rule : Css.Rule} (h : config.resolve text = .ok (some rule)) :
    ∃ className shorthand css, ClassName.parse? text = some className ∧
      config.shorthandOf? className = some shorthand ∧ config.evaluate shorthand = .ok css ∧
      rule = className.utility.rule text css := by
  obtain ⟨className, hparse⟩ := exists_of_resolve h
  cases hshorthand : config.shorthandOf? className with
  | none =>
    unfold resolve at h
    rw [hparse] at h
    simp only [hshorthand] at h
    exact nomatch h
  | some shorthand =>
    rw [resolve_of_shorthandOf? hparse hshorthand] at h
    unfold ruleOf at h
    cases hcss : config.evaluate shorthand with
    | error failure =>
      rw [hcss] at h
      exact nomatch h
    | ok css =>
      rw [hcss] at h
      obtain rfl := Option.some.inj (Except.ok.inj h)
      exact ⟨className, shorthand, css, hparse, hshorthand, hcss, rfl⟩

theorem declarations_ne_nil_of_resolve {rule : Css.Rule}
    (h : config.resolve text = .ok (some rule)) : rule.declarations ≠ [] := by
  obtain ⟨className, -, css, hparse, -, -, rfl⟩ := exists_of_resolve_eq_ok h
  exact Utility.declarations_rule_ne_nil (ClassName.utility_mem_table hparse) text css

end Config

end FluidClamp
