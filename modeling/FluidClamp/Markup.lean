/-
  FluidClamp.Markup
  ─────────────────
  **FINDING CLASSES IN A TEXT.**

  Any text may mention classes of utilities.  One is looked for at the start of
  the text and after every blank and quote, and has the form

      fluid- word (- word)* (-[ value ])?

  where words are ASCII letters and digits, and a value has no blank, quote or
  square bracket.  As much is taken as has this form, and the search goes on
  behind it.
-/
import FluidClamp.RuleSet
import FluidClamp.Text.Regex

namespace FluidClamp.Markup

/-! ## §1. Characters. -/

/-- Quotes: the double and the single one, and the back quote of templates. -/
def isQuote (c : Char) : Bool := c.toNat = 34 || c.toNat = 39 || c.toNat = 96

/-- Characters that a class may follow. -/
def isDelimiter (c : Char) : Bool := isBlank c || isQuote c

/-- Characters of a value in brackets. -/
def isValueChar (c : Char) : Bool := !isDelimiter c && c ≠ '[' && c ≠ ']'

/-! ## §2. The pattern of a class. -/

/-- A word of a class. -/
def word : Regex := .some (.one Char.isAlphanum)

/-- The words of a class. -/
def words : Regex := .seq word (.many (.seq (.literal ['-']) word))

/-- A value in brackets. -/
def bracketed : Regex :=
  .seq (.literal ['-', '[']) (.seq (.some (.one isValueChar)) (.literal [']']))

/-- A class. -/
def className : Regex :=
  .seq (.literal ClassName.start.toList) (.seq words (.optional bracketed))

/-- **A class where one may stand**; the class is the group. -/
def pattern : Regex := .seq (.either .start (.one isDelimiter)) (.group className)

/-! ## §3. All classes. -/

/-- What was taken for a class, one after the other. -/
def found (text : List Char) : List (List Char) :=
  (pattern.captures true text).filterMap List.head?

/-- **The classes that a text mentions**, each once, in the order in which they
first appear. -/
def classes (text : String) : List String :=
  ((found text.toList).map String.ofList).eraseDups

/-- The style sheet of the classes that a text mentions. -/
def css (config : Config) (layout : Css.Layout) (text : String) : String :=
  ((RuleSet.ofConfig config).addAll (classes text)).1.css layout

end FluidClamp.Markup
