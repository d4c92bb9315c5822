/-
  FluidClamp.Proofs.ClassName.Routes
  ──────────────────────────────────
  **THREE WAYS TO A VALUE.**

  A shorthand is given to a calculation as it is, written into a class with
  underscores for its blanks, or configured under a name, whole or in anchors.
  Each way has its own reading, and all come to the value of the shorthand:

    • `run_eq_evaluate`, a calculation evaluates its shorthand under the
      configuration that it has read and adjusted,
    • `parse?_ofShorthand`, a class written for a shorthand is read as it, the
      first `-[` being where it was put, since no utility has a bracket in its name,
    • a class with a name is read as the shorthand of that name.

  A rule tells its value (`Utility.rule_injective`), so a class follows a value in
  both directions.
-/
import FluidClamp.Calculation
import FluidClamp.Proofs.ClassName.Grammar
import FluidClamp.Proofs.RuleSet.Origin

namespace FluidClamp

/-! ## §1. The class of a shorthand. -/

namespace ClassName

/-- Blanks written as underscores. -/
def fold (shorthand : String) : List Char :=
  shorthand.toList.map fun c => if c = ' ' then '_' else c

/-- **The class of a utility for a shorthand.** -/
def ofShorthand (utility : Utility) (shorthand : String) : String :=
  start ++ utility.name ++ "-[" ++ String.ofList (fold shorthand) ++ "]"

/-- A shorthand without underscores is read as it was. -/
theorem unfold_fold {shorthand : String} (h : '_' ∉ shorthand.toList) :
    unfold (fold shorthand) = shorthand := by
  have hsame : ((fold shorthand).map fun c => if c = '_' then ' ' else c) = shorthand.toList := by
    unfold fold
    rw [List.map_map]
    conv_rhs => rw [← List.map_id shorthand.toList]
    apply List.map_congr_left
    intro c hc
    show (if (if c = ' ' then '_' else c) = '_' then ' ' else if c = ' ' then '_' else c) = c
    have hne : c ≠ '_' := fun heq => h (heq ▸ hc)
    by_cases hblank : c = ' '
    · rw [if_pos hblank, if_pos rfl, hblank]
    · rw [if_neg hblank, if_neg hne]
  unfold unfold
  rw [hsame, String.ofList_toList]

/-- **The class of a shorthand is read as its utility and the shorthand.** -/
theorem parse?_ofShorthand {utility : Utility} (hmem : utility ∈ Utility.table)
    {shorthand : String} (h : '_' ∉ shorthand.toList) :
    parse? (ofShorthand utility shorthand) =
      some ⟨ofShorthand utility shorthand, utility, .arbitrary shorthand⟩ := by
  have hbrackets : Brackets (ofShorthand utility shorthand) utility
      (String.ofList (fold shorthand)) := ⟨hmem, rfl⟩
  have hraw : unfold (String.ofList (fold shorthand)).toList = shorthand := by
    rw [String.toList_ofList, unfold_fold h]
  rw [hbrackets.parse?_eq, hraw]

end ClassName

/-! ## §2. Calculations. -/

/-- The calculation is accepted, and this is the configuration that it comes to. -/
structure CalculationRequest.Under (request : CalculationRequest) (tree : FileTree)
    (config : Config) : Prop where
  accepted : request.check = .ok ()
  config_eq : ∃ read, tree.config request.config = .ok read ∧ request.adjust read = config

/-- Without a root font size of its own it keeps the configuration as it is. -/
theorem CalculationRequest.adjust_of_rootSize_eq_none {request : CalculationRequest}
    (h : request.rootSize = none) (config : Config) : request.adjust config = config := by
  unfold adjust
  rw [h, Option.getD_none]

/-- A calculation evaluates its shorthand. -/
theorem CalculationRequest.Under.run_eq_evaluate {request : CalculationRequest} {tree : FileTree}
    {config : Config} (h : request.Under tree config) :
    request.run tree = config.evaluate request.shorthand := by
  obtain ⟨read, hread, rfl⟩ := h.config_eq
  unfold run
  rw [h.accepted, hread]
  rfl

/-! ## §3. Classes. -/

namespace Config

variable {config : Config} {utility : Utility} {text shorthand : String}

/-- **The class comes to what the shorthand comes to**: the rule of the utility with
a value exactly if that is the value, and a failure exactly if that is the failure. -/
structure Follows (config : Config) (utility : Utility) (text : String)
    (outcome : Except Failure String) : Prop where
  ok_iff : ∀ css, config.resolve text = .ok (some (utility.rule text css)) ↔ outcome = .ok css
  error_iff : ∀ failure, config.resolve text = .error failure ↔ outcome = .error failure

theorem follows_of_resolve (hmem : utility ∈ Utility.table)
    (h : config.resolve text = config.ruleOf utility text shorthand) :
    config.Follows utility text (config.evaluate shorthand) := by
  unfold ruleOf at h
  cases houtcome : config.evaluate shorthand with
  | error failure =>
    rw [houtcome] at h
    replace h : config.resolve text = .error failure := h
    constructor
    · intro css
      rw [h]
      exact ⟨fun heq => (nomatch heq), fun heq => (nomatch heq)⟩
    · intro other
      rw [h]
      exact ⟨fun heq => congrArg _ (Except.error.inj heq), fun heq => congrArg _ (Except.error.inj heq)⟩
  | ok value =>
    rw [houtcome] at h
    replace h : config.resolve text = .ok (some (utility.rule text value)) := h
    constructor
    · intro css
      rw [h]
      constructor
      · -- the rule tells its value
        intro heq
        have hrule := Option.some.inj (Except.ok.inj heq)
        rw [Utility.rule_injective hmem hrule]
      · intro heq
        rw [Except.ok.inj heq]
    · intro failure
      rw [h]
      exact ⟨fun heq => (nomatch heq), fun heq => (nomatch heq)⟩

/-- The entry means the shorthand: it is the shorthand, or its anchors are. -/
def IsEntryFor (entry : NamedShorthand) (shorthand : String) : Prop :=
  entry = .whole shorthand ∨
    ∃ texts, entry = .anchors texts ∧ String.intercalate "," texts = shorthand

theorem IsEntryFor.text_eq {entry : NamedShorthand} (h : IsEntryFor entry shorthand) :
    entry.text = shorthand := by
  rcases h with rfl | ⟨texts, rfl, rfl⟩
  · rfl
  · rfl

/-- **All ways from a shorthand agree.**  A calculation that comes to this
configuration has the value of its shorthand; the class that is written for a
shorthand without underscores follows that value, and so does every class with a
name that is configured for the shorthand. -/
theorem resolve_follows_calculation (config : Config) (shorthand : String)
    (hmem : utility ∈ Utility.table) :
    (∀ (request : CalculationRequest) (tree : FileTree), request.Under tree config →
      request.shorthand = shorthand → request.run tree = config.evaluate shorthand) ∧
    ('_' ∉ shorthand.toList →
      config.Follows utility (ClassName.ofShorthand utility shorthand)
        (config.evaluate shorthand)) ∧
    ∀ (text name key : String) (names : OrderedMap String NamedShorthand)
      (entry : NamedShorthand),
      ClassName.parse? text = some ⟨text, utility, .named name⟩ →
      utility.themeKey = some key → config.values.get? key = some names →
      names.get? name = some entry → IsEntryFor entry shorthand →
        config.Follows utility text (config.evaluate shorthand) := by
  refine ⟨?_, ?_, ?_⟩
  · rintro request tree hunder rfl
    exact hunder.run_eq_evaluate
  · intro hunderscore
    have hparse := ClassName.parse?_ofShorthand hmem hunderscore
    have hshorthand : config.shorthandOf?
        ⟨ClassName.ofShorthand utility shorthand, utility, .arbitrary shorthand⟩ =
          some shorthand := rfl
    have hresolve := resolve_of_shorthandOf? hparse hshorthand
    exact follows_of_resolve hmem hresolve
  · intro text name key names entry hparse hkey hnames hentry hmeans
    have hshorthand : config.shorthandOf? ⟨text, utility, .named name⟩ = some shorthand := by
      simp [shorthandOf?, namedShorthand?, hkey, hnames, hentry, hmeans.text_eq]
    have hresolve := resolve_of_shorthandOf? hparse hshorthand
    exact follows_of_resolve hmem hresolve

/-- One shorthand in all three ways, the configured one in anchors. -/
theorem resolve_follows_calculation_card :
    let shorthand := "768px 32px, 1280px 64px"
    let content := r#"{"values":{"gap":{"card":["768px 32px"," 1280px 64px"]}}}"#
    let tree := FileTree.empty.put ["c.json"] (.file (Bytes.ofText content))
    let config : Config :=
      { values := .ofList [("gap", .ofList [("card", .anchors ["768px 32px", " 1280px 64px"])])] }
    let value : Except Failure String := .ok "clamp(32px, 6.25vw - 16px, 64px)"
    CalculationRequest.run ⟨shorthand, some "c.json", none⟩ tree = value ∧
      config.Follows .gap "fluid-gap-[768px_32px,_1280px_64px]" value ∧
      config.Follows .gap "fluid-gap-card" value := by
  intro shorthand content tree config value
  have hvalue : config.evaluate shorthand = value := by decide +kernel
  have hunder : CalculationRequest.Under ⟨shorthand, some "c.json", none⟩ tree config :=
    ⟨rfl, config, by decide +kernel, CalculationRequest.adjust_of_rootSize_eq_none rfl config⟩
  have hparse : ClassName.parse? "fluid-gap-card" =
      some ⟨"fluid-gap-card", .gap, .named "card"⟩ := by decide +kernel
  obtain ⟨hcalculation, hwritten, hnamed⟩ :=
    resolve_follows_calculation config shorthand Utility.gap_mem_table
  rw [hvalue] at hcalculation hwritten hnamed
  have hrun := hcalculation ⟨shorthand, some "c.json", none⟩ tree hunder rfl
  have htext : ClassName.ofShorthand .gap shorthand =
      "fluid-gap-[768px_32px,_1280px_64px]" := by decide +kernel
  have hclass := hwritten (by decide)
  rw [htext] at hclass
  have hentry : IsEntryFor (.anchors ["768px 32px", " 1280px 64px"]) shorthand :=
    .inr ⟨_, rfl, by decide⟩
  have hcard := hnamed "fluid-gap-card" "card" "gap" _ _ hparse rfl rfl rfl hentry
  exact ⟨hrun, hclass, hcard⟩

end Config

end FluidClamp
