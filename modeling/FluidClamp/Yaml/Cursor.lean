/-
  FluidClamp.Yaml.Cursor
  ──────────────────────
  **A PLACE IN A YAML TEXT.**

  In YAML it matters in which column something stands, so what is left of a text
  is kept together with its place.  A line ends with a carriage return, a line
  feed, both in this order, or one of three other characters; the ends of the
  first four kinds all mean a line feed.

  These are the characters, lines and columns of YAML 1.1 as libyaml counts them,
  which `serde_yaml` 0.9 reads with.  A byte order mark in front of a line takes up a
  column of it.  Texts are given in UTF-8; the other encodings of YAML are not read.
-/

namespace FluidClamp.Yaml

/-! ## §1. Characters. -/

/-- Spaces and tabs. -/
def isSpaceOrTab (c : Char) : Bool := c = ' ' || c = '\t'

/-- Characters that end a line. -/
def isBreak (c : Char) : Bool :=
  c = '\n' || c = '\r' || c.toNat = 0x85 || c.toNat = 0x2028 || c.toNat = 0x2029

/-- Letters, digits, dashes and underscores. -/
def isWordChar (c : Char) : Bool := c.isAlphanum || c = '_' || c = '-'

/-- Characters that a YAML text may hold. -/
def isPrintable (c : Char) : Bool :=
  let n := c.toNat
  n = 0x09 || n = 0x0a || n = 0x0d || (0x20 ≤ n && n ≤ 0x7e) || n = 0x85 ||
    (0xa0 ≤ n && n ≤ 0xfffd) || 0x10000 ≤ n

/-- The byte order mark. -/
def isMark (c : Char) : Bool := c.toNat = 0xfeff

/-- Whether a text ends here, or a blank or a line end follows. -/
def atGap : List Char → Bool
  | [] => true
  | c :: _ => isSpaceOrTab c || isBreak c

/-- Whether a text or a line ends here. -/
def atLineEnd : List Char → Bool
  | [] => true
  | c :: _ => isBreak c

/-! ## §2. Cursors. -/

/-- What is left of a text, and where it stands. -/
structure Cursor where
  rest : List Char
  /-- Characters before this one, in the text. -/
  index : Nat
  /-- Lines before this one. -/
  line : Nat
  /-- Characters before this one, in the line. -/
  column : Nat
  deriving Repr, DecidableEq

namespace Cursor

def ofList (text : List Char) : Cursor := ⟨text, 0, 0, 0⟩

/-- Go on by some characters of the same line. -/
def advance (cursor : Cursor) (n : Nat) : Cursor :=
  ⟨cursor.rest.drop n, cursor.index + n, cursor.line, cursor.column + n⟩

/-- The characters at the front that have a property, none of which ends a line,
and the cursor behind them. -/
def take (cursor : Cursor) (p : Char → Bool) : List Char × Cursor :=
  let taken := cursor.rest.takeWhile p
  (taken, cursor.advance taken.length)

/-- The cursor behind the characters at the front that have a property. -/
def skip (cursor : Cursor) (p : Char → Bool) : Cursor := (cursor.take p).2

/-- Go behind a byte order mark that stands at the front of a line; it takes up a
column. -/
def skipMark (cursor : Cursor) : Cursor :=
  if cursor.column = 0 ∧ cursor.rest.head?.any isMark then cursor.advance 1 else cursor

/-- The end of a line, as it counts in a text, and the cursor in the next line. -/
def takeBreak (cursor : Cursor) : Option (List Char × Cursor) :=
  match cursor.rest with
  | '\r' :: '\n' :: rest => some (['\n'], ⟨rest, cursor.index + 2, cursor.line + 1, 0⟩)
  | c :: rest =>
      if isBreak c then
        let kept := if c.toNat = 0x2028 || c.toNat = 0x2029 then c else '\n'
        some ([kept], ⟨rest, cursor.index + 1, cursor.line + 1, 0⟩)
      else none
  | [] => none

/-- The cursor in the next line, if a line ends here. -/
def skipBreak (cursor : Cursor) : Cursor :=
  match cursor.takeBreak with
  | some (_, next) => next
  | none => cursor

/-- Whether a line begins here with three of one character and a gap. -/
def atMarker (cursor : Cursor) (c : Char) : Bool :=
  cursor.column = 0 && cursor.rest.take 3 = [c, c, c] && atGap (cursor.rest.drop 3)

/-- Whether a document begins or ends here. -/
def atDocumentMarker (cursor : Cursor) : Bool := cursor.atMarker '-' || cursor.atMarker '.'

/-- Go behind blanks and a comment. -/
def skipComment (cursor : Cursor) : Cursor :=
  let cursor := cursor.skip isSpaceOrTab
  if cursor.rest.head? = some '#' then cursor.skip fun c => !isBreak c else cursor

/-- Go behind blanks, a comment and the end of the line; nothing else may be
there. -/
def finishLine (cursor : Cursor) : Option Cursor :=
  let cursor := cursor.skipComment
  if atLineEnd cursor.rest then some cursor.skipBreak else none

end Cursor

end FluidClamp.Yaml
