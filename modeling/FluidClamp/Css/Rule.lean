/-
  FluidClamp.Css.Rule
  ───────────────────
  **RULES AND STYLE SHEETS.**

  A rule is a selector with declarations.  It is written in one of two layouts,
  one declaration to a line or everything on one line, and a style sheet is its
  rules one after the other.  `StyleSheet.read` recovers the rules from either
  layout.
-/
import FluidClamp.Text.Blank
import FluidClamp.Text.Cut

namespace FluidClamp.Css

/-! ## §1. Rules. -/

/-- A property and its value. -/
structure Declaration where
  property : String
  value : String
  deriving Repr, DecidableEq

/-- A selector with declarations. -/
structure Rule where
  selector : String
  declarations : List Declaration
  deriving Repr, DecidableEq

/-- How rules are laid out. -/
inductive Layout where
  /-- One declaration to a line. -/
  | pretty
  /-- Everything on one line, without blanks. -/
  | minified
  deriving Repr, DecidableEq

/-! ## §2. Writing. -/

/-- The text of a declaration. -/
def Declaration.render : Layout → Declaration → String
  | .pretty, d => "    " ++ d.property ++ ": " ++ d.value
  | .minified, d => d.property ++ ":" ++ d.value

/-- **The text of a rule.** -/
def Rule.render (layout : Layout) (rule : Rule) : String :=
  let body := rule.declarations.map (Declaration.render layout)
  match layout with
  | .pretty => rule.selector ++ r" {" ++ "\n" ++ String.intercalate ";\n" body ++ "\n" ++ r"}"
  | .minified => rule.selector ++ r"{" ++ String.intercalate ";" body ++ r"}"

/-- **The text of a style sheet**; without rules it is empty. -/
def StyleSheet.render (layout : Layout) (rules : List Rule) : String :=
  match layout, rules.map (Rule.render layout) with
  | _, [] => ""
  | .pretty, texts => String.intercalate "\n" texts ++ "\n"
  | .minified, texts => String.join texts

/-! ## §3. Reading. -/

/-- The text up to the first opening brace without a backslash, and the rest. -/
def readSelector : List Char → Option (List Char × List Char)
  | [] => none
  | '\\' :: c :: text =>
      (readSelector text).map fun (selector, rest) => ('\\' :: c :: selector, rest)
  | c :: text =>
      if c = '{' then some ([], text)
      else (readSelector text).map fun (selector, rest) => (c :: selector, rest)

/-- The declaration of a text: the property before the first colon, the value
after it. -/
def readDeclaration (text : List Char) : Option Declaration :=
  (cutAt? [':'] text).map fun (property, value) =>
    ⟨String.ofList (trim isBlank property), String.ofList (trim isBlank value)⟩

/-- One rule at the front of a text, and the rest. -/
def readRule (text : List Char) : Option (Rule × List Char) := do
  let (selector, rest) ← readSelector text
  let (body, rest) ← cutAt? ['}'] rest
  let declarations ← (splitOn (fun c => decide (c = ';')) body).mapM readDeclaration
  return (⟨String.ofList (trim isBlank selector), declarations⟩, rest)

/-- **The rules of a style sheet** in either layout, read one by one; `fuel`
bounds their number. -/
def StyleSheet.readRules : Nat → List Char → Option (List Rule)
  | 0, _ => none
  | fuel + 1, text =>
      if isAllBlank text then some []
      else do
        let (rule, rest) ← readRule text
        return rule :: (← readRules fuel rest)

/-- The rules of a style sheet. -/
def StyleSheet.read (text : String) : Option (List Rule) :=
  readRules (text.length + 1) text.toList

end FluidClamp.Css
