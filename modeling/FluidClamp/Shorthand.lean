/-
  FluidClamp.Shorthand
  ────────────────────
  **SHORTHANDS FOR SPANS.**

  A span is written `screen size, screen size`.  Either screen may be left out,
  and may be a length or the name of one; sizes are lengths.  The anchors are
  read from left to right, and in each anchor the screen before the size, so the
  leftmost fault is the one that is reported.
-/
import FluidClamp.Screens
import FluidClamp.Text.Blank

namespace FluidClamp

/-! ## §1. What can be wrong with a shorthand. -/

/-- Why a shorthand is refused. -/
inductive ShorthandError where
  /-- Not two anchors. -/
  | anchorCount (input : String) (anchors : Nat)
  /-- Neither a size nor a screen and a size. -/
  | wordCount (anchor input : String) (words : Nat)
  | noDefaultScreen
  /-- A length that is also the name of a screen. -/
  | ambiguousScreen (screen : String)
  | unknownScreen (screen : String)
  /-- A name for something that is not a length. -/
  | badScreenWidth (screen width : String)
  | badSize (size input : String)
  deriving Repr, DecidableEq

namespace ShorthandError

/-- How many words and how many anchors there should be, at most. -/
def expected : Nat := 2

/-- Whether a count is too large or too small. -/
def quantity (count : Nat) : String := if expected < count then "many" else "few"

/-- The noun is in the singular where exactly one is too many. -/
def counted (noun : String) (count : Nat) : String :=
  if count = expected + 1 then noun else noun ++ "s"

/-- The message of an error. -/
def message : ShorthandError → String
  | .anchorCount input anchors =>
      "'" ++ input ++ "' contains too " ++ quantity anchors ++ " " ++
        counted "argument" anchors ++ "."
  | .wordCount anchor input words =>
      "'" ++ anchor ++ "' contains too " ++ quantity words ++ " " ++
        counted "value" words ++ " in '" ++ input ++ "'."
  | .noDefaultScreen => "Screen is omitted, but no default screen is set."
  | .ambiguousScreen screen => "The '" ++ screen ++ "' is an invalid key for 'screens' option."
  | .unknownScreen screen => "The '" ++ screen ++ "' screen does not exist in 'screens' option."
  | .badScreenWidth screen width =>
      "Failed to parse '" ++ width ++ "' of 'screens." ++ screen ++ "'."
  | .badSize size input => "Failed to parse '" ++ size ++ "' in '" ++ input ++ "'."

end ShorthandError

/-! ## §2. Screens and anchors. -/

namespace Screens

/-- **The width that a screen text means**: a length means itself unless it is
also a name; any other text is the name of a length. -/
def resolve (screens : Screens) (screen : String) : Except ShorthandError (Length Binary64) :=
  match Length.parse? screen with
  | some width =>
      if screens.contains screen then .error (.ambiguousScreen screen) else .ok width
  | none =>
      match screens.get? screen with
      | none => .error (.unknownScreen screen)
      | some text =>
          match Length.parse? text with
          | some width => .ok width
          | none => .error (.badScreenWidth screen text)

end Screens

namespace Anchor

/-- The anchor of a screen text and a size text. -/
def resolve (screens : Screens) (input screen size : String) :
    Except ShorthandError (Anchor Binary64) :=
  match screens.resolve screen with
  | .error e => .error e
  | .ok width =>
      match Length.parse? size with
      | none => .error (.badSize size input)
      | some length => .ok ⟨width, length⟩

/-- Read one anchor of a shorthand. -/
def parse (screens : Screens) (side : Side) (input : String) (text : List Char) :
    Except ShorthandError (Anchor Binary64) :=
  match (words text).map String.ofList with
  | [size] =>
      match screens.default? side with
      | none => .error .noDefaultScreen
      | some screen => resolve screens input screen size
  | [screen, size] => resolve screens input screen size
  | all => .error (.wordCount (String.intercalate " " all) input all.length)

end Anchor

/-! ## §3. Shorthands. -/

/-- **Read a shorthand.** -/
def Span.parse (screens : Screens) (input : String) : Except ShorthandError (Span Binary64) :=
  match splitOn (fun c => decide (c = ',')) input.toList with
  | [start, finish] =>
      match Anchor.parse screens .start input start with
      | .error e => .error e
      | .ok first =>
          match Anchor.parse screens .finish input finish with
          | .error e => .error e
          | .ok second => .ok ⟨first, second⟩
  | anchors => .error (.anchorCount input anchors.length)

end FluidClamp
