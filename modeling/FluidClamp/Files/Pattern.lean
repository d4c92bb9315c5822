/-
  FluidClamp.Files.Pattern
  ────────────────────────
  **PATH PATTERNS.**

  A pattern is a path in which some characters stand for others:

      ?        one character
      *        any characters
      **       any directories, as a whole part of a path
      [a-z]    one of some characters;  [!a-z] one of the others

  A pattern is read into tokens, which fails for a bracket that is not closed and
  for two stars that are not a part of their own; `Pattern.accepts` says which
  texts a pattern stands for.  A star also stands for slashes, so a pattern for
  one part of a path is kept apart from a pattern for the whole (`Search`).

  These are the patterns of `glob` 0.3 with its standard options: letters have a
  case, and a dot in front of a name and a slash need not be written to be meant.  Of
  a fault in a pattern it is only said that there is one.
-/
import FluidClamp.Text.Cut

namespace FluidClamp

/-! ## §1. Characters in brackets. -/

/-- Some characters, or all others. -/
structure CharClass where
  negated : Bool
  /-- First and last characters. -/
  ranges : List (Char × Char)
  deriving Repr, DecidableEq

namespace CharClass

/-- Whether a character is one of the class. -/
def accepts (cls : CharClass) (c : Char) : Bool :=
  (cls.ranges.any fun range => decide (range.1 ≤ c) && decide (c ≤ range.2)) != cls.negated

/-- Single characters, and pairs joined by a dash. -/
def readRanges : List Char → List (Char × Char)
  | first :: '-' :: last :: rest => (first, last) :: readRanges rest
  | c :: rest => (c, c) :: readRanges rest
  | [] => []

/-- The characters up to the closing bracket; the first of them may be a bracket
itself. -/
def readMembers (negated : Bool) : List Char → Option (CharClass × List Char)
  | [] => none
  | c :: text =>
      (cutAt? [']'] text).map fun (members, rest) => (⟨negated, readRanges (c :: members)⟩, rest)

/-- The class behind an opening bracket, and the rest. -/
def read : List Char → Option (CharClass × List Char)
  | '!' :: text => readMembers true text
  | text => readMembers false text

theorem length_lt_of_readMembers {negated : Bool} {text rest : List Char} {cls : CharClass}
    (h : readMembers negated text = some (cls, rest)) : rest.length < text.length := by
  cases text with
  | nil => simp [readMembers] at h
  | cons c text =>
    simp only [readMembers, Option.map_eq_some_iff, Prod.mk.injEq, Prod.exists] at h
    obtain ⟨members, right, hc, -, rfl⟩ := h
    rw [eq_append_of_cutAt? hc]
    simp only [List.length_cons, List.length_append]
    omega

theorem length_lt_of_read {text rest : List Char} {cls : CharClass}
    (h : read text = some (cls, rest)) : rest.length < text.length := by
  unfold read at h
  split at h
  · exact Nat.lt_trans (length_lt_of_readMembers h) (by simp)
  · exact length_lt_of_readMembers h

end CharClass

/-! ## §2. Patterns. -/

/-- A part of a pattern. -/
inductive PatternToken where
  | char (c : Char)
  /-- One character. -/
  | one
  /-- Any characters. -/
  | sequence
  /-- Nothing, a text that ends with a slash, or all the rest. -/
  | directories
  | oneOf (cls : CharClass)
  deriving Repr, DecidableEq

/-- A pattern as its tokens. -/
structure Pattern where
  tokens : List PatternToken
  deriving Repr, DecidableEq

namespace Pattern

/-- Read the tokens of a text; `atPart` says whether a part of a path starts here. -/
def readTokens (atPart : Bool) (text : List Char) : Option (List PatternToken) :=
  match text with
  | [] => some []
  | '?' :: text => (readTokens false text).map (.one :: ·)
  | '*' :: '*' :: [] => if atPart then some [.directories] else none
  | '*' :: '*' :: '/' :: text =>
      if atPart then (readTokens true text).map (.directories :: ·) else none
  | '*' :: '*' :: _ => none
  | '*' :: text => (readTokens false text).map (.sequence :: ·)
  | '[' :: text =>
      match _h : CharClass.read text with
      | none => none
      | some (cls, rest) => (readTokens false rest).map (.oneOf cls :: ·)
  | c :: text => (readTokens (decide (c = '/')) text).map (.char c :: ·)
termination_by text.length
decreasing_by
  · simp
  · simp only [List.length_cons]; omega
  · simp
  · exact Nat.lt_succ_of_lt (CharClass.length_lt_of_read _h)
  · simp

/-- **Read a pattern.** -/
def parse? (text : List Char) : Option Pattern := (readTokens true text).map Pattern.mk

/-- Whether the pattern stands for directories and what is in them. -/
def isRecursive (pattern : Pattern) : Bool := pattern.tokens.contains .directories

/-- The text of a pattern that stands for itself alone. -/
def literal? (pattern : Pattern) : Option (List Char) :=
  pattern.tokens.mapM fun
    | .char c => some c
    | _ => none

/-! ## §3. Matching. -/

/-- The ends of a text, the whole first. -/
def suffixes : List Char → List (List Char)
  | [] => [[]]
  | c :: text => (c :: text) :: suffixes text

/-- The ends of a text that follow a slash. -/
def afterSlashes : List Char → List (List Char)
  | [] => []
  | c :: text => if c = '/' then text :: afterSlashes text else afterSlashes text

/-- Whether tokens stand for a text. -/
def tokensAccept : List PatternToken → List Char → Bool
  | [], text => text.isEmpty
  | .sequence :: tokens, text => (suffixes text).any (tokensAccept tokens)
  | .directories :: tokens, text =>
      (text :: [] :: afterSlashes text).any (tokensAccept tokens)
  | .one :: tokens, _ :: text => tokensAccept tokens text
  | .char c :: tokens, d :: text => decide (c = d) && tokensAccept tokens text
  | .oneOf cls :: tokens, d :: text => cls.accepts d && tokensAccept tokens text
  | _ :: _, [] => false

/-- **Whether a pattern stands for a text.** -/
def accepts (pattern : Pattern) (text : String) : Bool :=
  tokensAccept pattern.tokens text.toList

end Pattern

end FluidClamp
