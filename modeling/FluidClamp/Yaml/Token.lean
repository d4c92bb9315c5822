/-
  FluidClamp.Yaml.Token
  ─────────────────────
  **THE TOKENS OF A YAML TEXT.**

  Collections without brackets are told by indentation alone, and a key is only
  known to be one when the colon behind it is met.  So the place where a key may
  have begun is kept (`PossibleKey`), and the tokens that open a mapping and
  announce its key are put in there afterwards.  `Token.ofText?` gives all tokens
  of a text, with the start and the end of every collection made explicit.

  Tokens are told apart the way libyaml does it for YAML 1.1, with its limit of 1024
  characters on a key, its rules for tabs, and byte order marks passed over in front
  of a line.  All tokens are read before the first is looked at, and a text is
  refused for a fault anywhere in it.  Where a fault is, and which, is not said.
-/
import FluidClamp.Text.Bytes
import FluidClamp.Yaml.Scalar

namespace FluidClamp.Yaml

/-! ## §1. Tokens. -/

/-- How a scalar is written. -/
inductive ScalarStyle where
  | plain
  | quoted
  | literal
  | folded
  deriving Repr, DecidableEq

/-- A token. -/
inductive Token where
  /-- A `%YAML` directive. -/
  | version (major minor : Nat)
  /-- A `%TAG` directive. -/
  | tagHandle (handle start : List Char)
  | documentStart
  | documentEnd
  | blockSequenceStart
  | blockMappingStart
  | blockEnd
  | flowSequenceStart
  | flowSequenceEnd
  | flowMappingStart
  | flowMappingEnd
  | blockEntry
  | flowEntry
  | key
  | value
  | alias (name : List Char)
  | anchor (name : List Char)
  | tag (handle suffix : List Char)
  | scalar (style : ScalarStyle) (text : List Char)
  deriving Repr, DecidableEq

/-! ## §2. Directives, anchors and tags. -/

namespace Cursor

/-- A number of at most nine digits. -/
def readNumber (cursor : Cursor) : Option (Nat × Cursor) :=
  let (digits, behind) := cursor.take Char.isDigit
  if digits = [] ∨ 9 < digits.length then none
  else some (Nat.ofDigitChars 10 digits 0, behind)

/-- An exclamation mark, a word, and perhaps another mark; a handle that a
directive declares has both marks or is one alone. -/
def readTagHandle (cursor : Cursor) (declared : Bool) : Option (List Char × Cursor) :=
  if cursor.rest.head? = some '!' then
    let (word, behind) := (cursor.advance 1).take isWordChar
    if behind.rest.head? = some '!' then some ('!' :: word ++ ['!'], behind.advance 1)
    else if declared && word ≠ [] then none
    else some ('!' :: word, behind)
  else none

/-- Characters of a tag; only a tag in angle brackets may hold flow indicators. -/
def isTagChar (bracketed : Bool) (c : Char) : Bool :=
  isWordChar c || ";/?:@&=+$.%!~*()".toList.contains c || c.toNat = 39 ||
    (bracketed && (c = ',' || c = '[' || c = ']'))

/-- The bytes that a percent sign announces, at the front of a text. -/
def readEscapedBytes : List Char → Option (List UInt8)
  | '%' :: a :: b :: rest => do
      let byte ← hexNumber? [a, b]
      return UInt8.ofNat byte :: (← readEscapedBytes rest)
  | '%' :: _ => none
  | _ => some []

/-- The text of a tag with its escaped bytes, runs of which have to be UTF-8. -/
def unescapeTag : Nat → List Char → Option (List Char)
  | 0, _ => none
  | _ + 1, [] => some []
  | fuel + 1, c :: rest =>
      if c = '%' then do
        let bytes ← readEscapedBytes (c :: rest)
        let text ← Bytes.text? bytes
        return text.toList ++ (← unescapeTag fuel ((c :: rest).drop (3 * bytes.length)))
      else (unescapeTag fuel rest).map (c :: ·)

/-- The characters of a tag. -/
def readTagText (cursor : Cursor) (bracketed : Bool) : Option (List Char × Cursor) :=
  let (raw, behind) := cursor.take (isTagChar bracketed)
  (unescapeTag (raw.length + 1) raw).map fun text => (text, behind)

/-- A tag as its handle and the text behind it.  A tag in angle brackets has no
handle, and neither has the mark on its own. -/
def readTag (cursor : Cursor) : Option ((List Char × List Char) × Cursor) :=
  if (cursor.advance 1).rest.head? = some '<' then do
    let (text, behind) ← (cursor.advance 2).readTagText true
    if text = [] ∨ behind.rest.head? ≠ some '>' then none
    else return (([], text), behind.advance 1)
  else do
    let (handle, behind) ← cursor.readTagHandle false
    if 1 < handle.length ∧ handle.getLast? = some '!' then
      let (text, behind) ← behind.readTagText false
      if text = [] then none else return ((handle, text), behind)
    else
      let (text, behind) ← behind.readTagText false
      let whole := handle.drop 1 ++ text
      if whole = [] then return (([], ['!']), behind) else return ((['!'], whole), behind)

/-- A directive, with the rest of its line. -/
def readDirective (cursor : Cursor) : Option (Token × Cursor) := do
  let (name, behind) := (cursor.advance 1).take isWordChar
  if name = [] ∨ !atGap behind.rest then none
  else
    let behind := behind.skip isSpaceOrTab
    let (token, behind) ←
      (if name = ['Y', 'A', 'M', 'L'] then do
        let (major, behind) ← behind.readNumber
        if behind.rest.head? ≠ some '.' then none
        else
          let (minor, behind) ← (behind.advance 1).readNumber
          some (Token.version major minor, behind)
      else if name = ['T', 'A', 'G'] then do
        let (handle, behind) ← behind.readTagHandle true
        if !(behind.rest.head?.any isSpaceOrTab) then none
        else
          let (start, behind) ← (behind.skip isSpaceOrTab).readTagText true
          if start = [] ∨ !atGap behind.rest then none
          else some (Token.tagHandle handle start, behind)
      else none)
    return (token, ← behind.finishLine)

/-- The name of an anchor or an alias. -/
def readAnchorName (cursor : Cursor) : Option (List Char × Cursor) :=
  let (name, behind) := (cursor.advance 1).take isWordChar
  let ends :=
    match behind.rest with
    | [] => true
    | c :: _ => atGap [c] || r"?:,]}%@".toList.contains c || c.toNat = 96
  if name = [] ∨ !ends then none else some (name, behind)

end Cursor

/-! ## §3. The state of reading. -/

/-- A place where a key may have begun. -/
structure PossibleKey where
  /-- How many tokens stand before it. -/
  tokens : Nat
  index : Nat
  line : Nat
  column : Nat
  /-- Nothing but a key may stand there. -/
  required : Bool
  deriving Repr, DecidableEq

/-- What is known at a place of a text. -/
structure Scan where
  cursor : Cursor
  /-- The tokens so far. -/
  tokens : Array Token
  /-- The column of the innermost collection without brackets; −1 outside. -/
  indent : Int
  /-- The columns of those around it. -/
  outer : List Int
  /-- The possible key of this level of brackets. -/
  possible : Option PossibleKey
  /-- The possible keys of the levels around it. -/
  enclosing : List (Option PossibleKey)
  /-- Whether a key may begin here. -/
  keyAllowed : Bool
  deriving Repr

namespace Scan

def ofCursor (cursor : Cursor) : Scan := ⟨cursor, #[], -1, [], none, [], true⟩

/-- Whether the place is inside brackets. -/
def inFlow (scan : Scan) : Bool := !scan.enclosing.isEmpty

def push (scan : Scan) (token : Token) : Scan := { scan with tokens := scan.tokens.push token }

/-- Push a token of some characters and go behind it. -/
def pushAt (scan : Scan) (token : Token) (length : Nat) : Scan :=
  { scan.push token with cursor := scan.cursor.advance length }

/-- Put a token before others. -/
def insertAt (scan : Scan) (n : Nat) (token : Token) : Scan :=
  { scan with tokens := (scan.tokens.extract 0 n).push token ++ scan.tokens.extract n scan.tokens.size }

/-! ## §4. Possible keys. -/

/-- There is no key after all; a required one must not go missing. -/
def dropKey (scan : Scan) : Option Scan :=
  match scan.possible with
  | some key => if key.required then none else some { scan with possible := none }
  | none => some scan

/-- A key stands in one line and is not longer than 1024 characters. -/
def isStale (scan : Scan) (key : PossibleKey) : Bool :=
  decide (key.line < scan.cursor.line) || decide (key.index + 1024 < scan.cursor.index)

/-- Forget the keys, at all levels, that the text has gone too far for. -/
def dropStaleKeys (scan : Scan) : Option Scan := do
  let keep (possible : Option PossibleKey) : Option (Option PossibleKey) :=
    match possible with
    | some key => if scan.isStale key then if key.required then none else some none else some possible
    | none => some none
  let possible ← keep scan.possible
  let enclosing ← scan.enclosing.mapM keep
  return { scan with possible, enclosing }

/-- A key may begin here. -/
def noteKey (scan : Scan) : Option Scan :=
  if scan.keyAllowed then do
    let required := !scan.inFlow && decide (scan.indent = scan.cursor.column)
    let scan ← scan.dropKey
    return { scan with
      possible := some ⟨scan.tokens.size, scan.cursor.index, scan.cursor.line,
        scan.cursor.column, required⟩ }
  else some scan

/-! ## §5. Indentation. -/

/-- Open a collection in a column that is further right, putting its token before
others. -/
def openBlock (scan : Scan) (column : Nat) (n : Nat) (token : Token) : Scan :=
  if !scan.inFlow && decide (scan.indent < column) then
    { scan.insertAt n token with indent := column, outer := scan.indent :: scan.outer }
  else scan

/-- The outer columns that stay, and how many collections end left of a column. -/
def closedBlocks (column : Int) : Int → List Int → Nat × Int × List Int
  | indent, [] => (0, indent, [])
  | indent, next :: outer =>
      if column < indent then
        let (n, indent, outer) := closedBlocks column next outer
        (n + 1, indent, outer)
      else (0, indent, next :: outer)

/-- Close the collections that begin right of a column. -/
def closeBlocks (scan : Scan) (column : Int) : Scan :=
  if scan.inFlow then scan
  else
    let (n, indent, outer) := closedBlocks column scan.indent scan.outer
    { scan with
      tokens := scan.tokens ++ (List.replicate n Token.blockEnd).toArray
      indent, outer }

/-! ## §6. Blanks. -/

/-- Go to the next token.  A tab may not stand where a key may begin, and a byte
order mark only at the front of a line. -/
def skipToToken : Nat → Scan → Scan
  | 0, scan => scan
  | fuel + 1, scan =>
      let tabs := scan.inFlow || !scan.keyAllowed
      let cursor := scan.cursor.skipMark.skip fun c => c = ' ' || (tabs && c = '\t')
      let cursor :=
        if cursor.rest.head? = some '#' then cursor.skip fun c => !isBreak c else cursor
      match cursor.takeBreak with
      | some (_, next) =>
          skipToToken fuel
            { scan with cursor := next, keyAllowed := scan.keyAllowed || !scan.inFlow }
      | none => { scan with cursor }

/-! ## §7. One token. -/

/-- A directive or the marker of a document ends all that is open. -/
def endDocument (scan : Scan) : Option Scan := do
  let scan ← (scan.closeBlocks (-1)).dropKey
  return { scan with keyAllowed := false }

/-- An opening bracket, which a key may begin with. -/
def openFlow (scan : Scan) (token : Token) : Option Scan := do
  let scan ← scan.noteKey
  return { scan.pushAt token 1 with
    possible := none, enclosing := scan.possible :: scan.enclosing, keyAllowed := true }

/-- A closing bracket. -/
def closeFlow (scan : Scan) (token : Token) : Option Scan := do
  let scan ← scan.dropKey
  let scan :=
    match scan.enclosing with
    | [] => scan
    | possible :: enclosing => { scan with possible, enclosing }
  return { scan.pushAt token 1 with keyAllowed := false }

/-- A comma in brackets. -/
def flowEntry (scan : Scan) : Option Scan := do
  let scan ← scan.dropKey
  return { scan.pushAt .flowEntry 1 with keyAllowed := true }

/-- The dash of an item. -/
def blockEntry (scan : Scan) : Option Scan := do
  if !scan.inFlow && !scan.keyAllowed then none
  else
    let scan := scan.openBlock scan.cursor.column scan.tokens.size .blockSequenceStart
    let scan ← scan.dropKey
    return { scan.pushAt .blockEntry 1 with keyAllowed := true }

/-- The question mark of a key. -/
def explicitKey (scan : Scan) : Option Scan := do
  if !scan.inFlow && !scan.keyAllowed then none
  else
    let scan := scan.openBlock scan.cursor.column scan.tokens.size .blockMappingStart
    let scan ← scan.dropKey
    return { scan.pushAt .key 1 with keyAllowed := !scan.inFlow }

/-- The colon of a value: behind a possible key, which is a key by that, or behind
one that had a question mark. -/
def mappingValue (scan : Scan) : Option Scan :=
  match scan.possible with
  | some key =>
      let scan := (scan.insertAt key.tokens .key).openBlock key.column key.tokens .blockMappingStart
      some { scan.pushAt .value 1 with possible := none, keyAllowed := false }
  | none =>
      if !scan.inFlow && !scan.keyAllowed then none
      else
        let scan := scan.openBlock scan.cursor.column scan.tokens.size .blockMappingStart
        some { scan.pushAt .value 1 with keyAllowed := !scan.inFlow }

/-- A token that a key may begin with, read by its own reader. -/
def keyed (scan : Scan) (read : Cursor → Option (Token × Cursor)) : Option Scan := do
  let scan ← scan.noteKey
  let (token, cursor) ← read scan.cursor
  return { scan.push token with cursor, keyAllowed := false }

/-- An anchor or an alias. -/
def anchorLike (scan : Scan) (make : List Char → Token) : Option Scan :=
  scan.keyed fun cursor => (cursor.readAnchorName).map fun (name, cursor) => (make name, cursor)

/-- A tag. -/
def tag (scan : Scan) : Option Scan :=
  scan.keyed fun cursor => do
    let ((handle, text), cursor) ← cursor.readTag
    if atGap cursor.rest || (scan.inFlow && cursor.rest.head? = some ',') then
      return (.tag handle text, cursor)
    else none

/-- A scalar in quotes. -/
def quoted (scan : Scan) (single : Bool) : Option Scan :=
  scan.keyed fun cursor =>
    (cursor.readQuoted single).map fun (text, cursor) => (.scalar .quoted text, cursor)

/-- A scalar of its own lines. -/
def block (scan : Scan) (literal : Bool) : Option Scan := do
  let scan ← scan.dropKey
  let (text, cursor) ← scan.cursor.readBlock literal scan.indent
  let style := if literal then ScalarStyle.literal else .folded
  return { scan.push (.scalar style text) with cursor, keyAllowed := true }

/-- A plain scalar. -/
def plain (scan : Scan) : Option Scan := do
  let scan ← scan.noteKey
  let scalar ← scan.cursor.readPlain scan.inFlow (scan.indent + 1).toNat
  return { scan.push (.scalar .plain scalar.text) with
    cursor := scalar.cursor, keyAllowed := scalar.lineEnded }

/-- Whether a plain scalar may begin with a character, before some others. -/
def startsPlain (inFlow : Bool) (c : Char) (rest : List Char) : Bool :=
  if c = '-' then !(rest.head?.any isSpaceOrTab)
  else if c = '?' ∨ c = ':' then !inFlow && !atGap rest
  else !(r#"-?:,[]{}#&*!|>'"%@`"#.toList.contains c) && !atGap [c]

/-- The next token.  The cursor stands at it. -/
def readToken (scan : Scan) (c : Char) (rest : List Char) : Option Scan :=
  let cursor := scan.cursor
  let spaced := scan.inFlow || atGap rest
  if cursor.column = 0 ∧ c = '%' then do
    let scan ← scan.endDocument
    let (token, cursor) ← cursor.readDirective
    return { scan.push token with cursor }
  else if cursor.atMarker '-' then scan.endDocument.map (·.pushAt .documentStart 3)
  else if cursor.atMarker '.' then scan.endDocument.map (·.pushAt .documentEnd 3)
  else
    match c with
    | '[' => scan.openFlow .flowSequenceStart
    | '{' => scan.openFlow .flowMappingStart
    | ']' => scan.closeFlow .flowSequenceEnd
    | '}' => scan.closeFlow .flowMappingEnd
    | ',' => scan.flowEntry
    | '*' => scan.anchorLike .alias
    | '&' => scan.anchorLike .anchor
    | '!' => scan.tag
    | '"' => scan.quoted false
    | _ =>
        if c = '-' ∧ atGap rest then scan.blockEntry
        else if c = '?' ∧ spaced then scan.explicitKey
        else if c = ':' ∧ spaced then scan.mappingValue
        else if c = '|' ∧ !scan.inFlow then scan.block true
        else if c = '>' ∧ !scan.inFlow then scan.block false
        else if c.toNat = 39 then scan.quoted true
        else if startsPlain scan.inFlow c rest then scan.plain
        else none

/-- All tokens from a place on. -/
def readTokens : Nat → Scan → Option (Array Token)
  | 0, _ => none
  | fuel + 1, scan => do
      let scan := skipToToken (scan.cursor.rest.length + 1) scan
      let scan ← scan.dropStaleKeys
      let scan := scan.closeBlocks scan.cursor.column
      match scan.cursor.rest with
      | [] =>
          let scan ← (scan.closeBlocks (-1)).dropKey
          return scan.tokens
      | c :: rest => readTokens fuel (← scan.readToken c rest)

end Scan

/-! ## §8. All tokens. -/

/-- Where the tokens begin: a byte order mark in front of the text is not part of
it. -/
def Cursor.start (text : List Char) : Cursor :=
  .ofList (if text.head?.any isMark then text.drop 1 else text)

/-- **The tokens of a text.** -/
def Token.ofText? (text : String) : Option (List Token) :=
  let cursor := Cursor.start text.toList
  if cursor.rest.all isPrintable then
    (Scan.readTokens (cursor.rest.length + 2) (.ofCursor cursor)).map Array.toList
  else none

end FluidClamp.Yaml
