/-
  FluidClamp.RuleSet
  ──────────────────
  **THE RULES OF A SET OF CLASSES.**

  Under a configuration a class has a rule, or is none of ours, or has a
  shorthand that cannot be evaluated (`Config.resolve`).  A `RuleSet` collects
  the rules of the classes that are added to it, and its style sheet lists them
  by the place of their utility and then by class name, so that it does not
  depend on the order in which the classes came.
-/
import FluidClamp.ClassName
import FluidClamp.Failure

namespace FluidClamp

/-! ## §1. The rule of a class. -/

namespace Config

/-- The shorthand of a class, written or configured. -/
def shorthandOf? (config : Config) (className : ClassName) : Option String :=
  match className.value with
  | .arbitrary shorthand => some shorthand
  | .named name => className.utility.themeKey.bind fun key => config.namedShorthand? key name

/-- **The rule of a class**: none for a class that is not of a utility or whose
name is not configured, a failure for a shorthand without a value. -/
def resolve (config : Config) (text : String) : Except Failure (Option Css.Rule) :=
  match ClassName.parse? text with
  | none => .ok none
  | some className =>
      match config.shorthandOf? className with
      | none => .ok none
      | some shorthand =>
          match config.evaluate shorthand with
          | .error failure => .error failure
          | .ok css => .ok (some (className.utility.rule text css))

/-- The warning that a class with a failing shorthand gives. -/
def warning? (config : Config) (text : String) : Option String :=
  match config.resolve text with
  | .ok _ => none
  | .error failure =>
      some ("The utility `" ++ text ++ "` contains an invalid value and was not generated. " ++
        failure.message)

/-- The warnings of some classes, in their order. -/
def warnings (config : Config) (texts : List String) : List String :=
  texts.filterMap config.warning?

end Config

/-! ## §2. Collecting rules. -/

/-- A rule with the place of its utility. -/
structure PlacedRule where
  place : Nat
  rule : Css.Rule
  deriving Repr, DecidableEq

/-- The rules of the classes that were added, under one configuration. -/
structure RuleSet where
  config : Config
  rules : OrderedMap String PlacedRule
  deriving DecidableEq

namespace RuleSet

/-- No rules yet. -/
def ofConfig (config : Config) : RuleSet := ⟨config, .empty⟩

/-- Keep what a class came to; the answer says whether that is a rule. -/
def record (set : RuleSet) (text : String) : Except Failure (Option Css.Rule) → RuleSet × Bool
  | .ok (some rule) =>
      ({ set with rules := set.rules.insert text ⟨ClassName.place text, rule⟩ }, true)
  | .ok none | .error _ => (set, false)

/-- Keep what some classes came to; the answer counts the rules. -/
def recordAll (set : RuleSet) : List (String × Except Failure (Option Css.Rule)) → RuleSet × Nat
  | [] => (set, 0)
  | (text, resolved) :: rest =>
      let recorded := set.record text resolved
      let all := recorded.1.recordAll rest
      (all.1, if recorded.2 then all.2 + 1 else all.2)

/-- Add the rule of a class, if it has one; the answer says whether it has. -/
def add (set : RuleSet) (text : String) : RuleSet × Bool :=
  set.record text (set.config.resolve text)

/-- Add the rules of some classes, all of which are resolved first; the answer
counts those that have one, each as often as it is given. -/
def addAll (set : RuleSet) (texts : List String) : RuleSet × Nat :=
  set.recordAll (texts.map fun text => (text, set.config.resolve text))

/-- How many classes have a rule. -/
def size (set : RuleSet) : Nat := set.rules.size

/-! ## §3. The style sheet. -/

/-- The order of rules: by place, then by class name. -/
def precedes (a b : String × PlacedRule) : Bool :=
  decide (a.2.place < b.2.place) || (a.2.place == b.2.place && decide (a.1 ≤ b.1))

/-- The rules in their order. -/
def sorted (set : RuleSet) : List Css.Rule :=
  (set.rules.entries.mergeSort precedes).map fun entry => entry.2.rule

/-- **The style sheet** of the collected rules. -/
def css (set : RuleSet) (layout : Css.Layout) : String :=
  Css.StyleSheet.render layout set.sorted

@[simp] theorem config_record (set : RuleSet) (text : String)
    (resolved : Except Failure (Option Css.Rule)) :
    (set.record text resolved).1.config = set.config := by
  rcases resolved with _ | _ | _ <;> rfl

@[simp] theorem config_recordAll (set : RuleSet)
    (all : List (String × Except Failure (Option Css.Rule))) :
    (set.recordAll all).1.config = set.config := by
  induction all generalizing set with
  | nil => rfl
  | cons entry rest ih => rw [recordAll, ih, config_record]

@[simp] theorem config_add (set : RuleSet) (text : String) :
    (set.add text).1.config = set.config := config_record _ _ _

@[simp] theorem config_addAll (set : RuleSet) (texts : List String) :
    (set.addAll texts).1.config = set.config := config_recordAll _ _

end RuleSet

end FluidClamp
