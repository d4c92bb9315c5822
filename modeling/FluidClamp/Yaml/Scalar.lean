/-
  FluidClamp.Yaml.Scalar
  ──────────────────────
  **THE TEXTS OF SCALARS.**

  A scalar is plain, in quotes, or a block of lines.  In the first two a line end
  between words means a space, and empty lines in between mean as many line feeds
  (`foldBreaks`); a literal block keeps its lines, and a folded one joins those
  that are not indented further.  What ends a plain scalar or a block depends on
  the indentation that surrounds it.

  The escapes, the folding of lines and the marks of a block are those of YAML 1.1,
  and the places where tabs are refused are those of libyaml, which differ from the
  text of the standard in some corners.
-/
import FluidClamp.Text.Hex
import FluidClamp.Yaml.Cursor

namespace FluidClamp.Yaml

/-! ## §1. Line ends between words. -/

/-- The blanks between two words: those in one line, or the end of the first line
and those of the lines after it. -/
structure Gap where
  spaces : List Char
  first : Option (List Char)
  more : List Char
  deriving Repr, DecidableEq

/-- What line ends mean: one is a space, further ones stand for themselves. -/
def foldBreaks (first more : List Char) : List Char :=
  if first = ['\n'] then if more = [] then [' '] else more else first ++ more

/-- What a gap means. -/
def Gap.text (gap : Gap) : List Char :=
  match gap.first with
  | none => gap.spaces
  | some first => foldBreaks first gap.more

/-- The gap at a cursor.  With an indentation given, a tab before it is refused in
every line but the first. -/
def readGap (indent : Nat) (fuel : Nat) (gap : Gap) (cursor : Cursor) : Option (Gap × Cursor) :=
  match fuel with
  | 0 => some (gap, cursor)
  | fuel + 1 =>
      match cursor.rest with
      | [] => some (gap, cursor)
      | c :: _ =>
          if isSpaceOrTab c then
            match gap.first with
            | none => readGap indent fuel { gap with spaces := gap.spaces ++ [c] } (cursor.advance 1)
            | some _ =>
                if c = '\t' ∧ cursor.column < indent then none
                else readGap indent fuel gap (cursor.advance 1)
          else
            match cursor.takeBreak, gap.first with
            | none, _ => some (gap, cursor)
            | some (line, next), none => readGap indent fuel { gap with first := some line } next
            | some (line, next), some _ =>
                readGap indent fuel { gap with more := gap.more ++ line } next

/-- The whole gap at a cursor. -/
def Cursor.readGap (cursor : Cursor) (indent : Nat) (first : Option (List Char)) :
    Option (Gap × Cursor) :=
  Yaml.readGap indent (cursor.rest.length + 1) ⟨[], first, []⟩ cursor

/-! ## §2. Plain scalars. -/

/-- Indicators of collections in brackets. -/
def isFlowIndicator (c : Char) : Bool := c = ',' || c = '[' || c = ']' || c = '{' || c = '}'

/-- The characters of a plain scalar up to a gap or an indicator. -/
def takePlain (inFlow : Bool) : List Char → Option (List Char)
  | [] => some []
  | c :: rest =>
      if isSpaceOrTab c || isBreak c then some []
      else if inFlow && c = ':' && rest.head?.any (fun d => isFlowIndicator d || d = '?') then none
      else if (c = ':' && atGap rest) || (inFlow && isFlowIndicator c) then some []
      else (takePlain inFlow rest).map (c :: ·)

/-- A scalar that was read: its text, the cursor behind it and the gap after it,
and whether the line ended in that gap. -/
structure PlainScalar where
  text : List Char
  cursor : Cursor
  lineEnded : Bool
  deriving Repr, DecidableEq

/-- Read a plain scalar whose lines are indented by `indent`; `pending` stands
before the next word. -/
def readPlainFrom (inFlow : Bool) (indent : Nat) :
    Nat → List Char → Gap → Cursor → Option PlainScalar
  | 0, _, _, _ => none
  | fuel + 1, text, pending, cursor =>
      let stop : PlainScalar := ⟨text, cursor, pending.first.isSome⟩
      if cursor.atDocumentMarker || cursor.rest.head? = some '#' then some stop
      else do
        let word ← takePlain inFlow cursor.rest
        if word = [] then return stop
        let text := text ++ pending.text ++ word
        let behind := cursor.advance word.length
        if behind.rest = [] || !atGap behind.rest then return ⟨text, behind, false⟩
        let (gap, next) ← behind.readGap indent none
        if !inFlow && next.column < indent then return ⟨text, next, gap.first.isSome⟩
        readPlainFrom inFlow indent fuel text gap next

/-- **Read a plain scalar.** -/
def Cursor.readPlain (cursor : Cursor) (inFlow : Bool) (indent : Nat) : Option PlainScalar :=
  readPlainFrom inFlow indent (cursor.rest.length + 1) [] ⟨[], none, []⟩ cursor

/-! ## §3. Scalars in quotes. -/

/-- The character of an escape with one letter. -/
def escaped? : Char → Option Nat
  | '0' => some 0
  | 'a' => some 7
  | 'b' => some 8
  | 't' => some 9
  | '\t' => some 9
  | 'n' => some 10
  | 'v' => some 11
  | 'f' => some 12
  | 'r' => some 13
  | 'e' => some 27
  | ' ' => some 32
  | '"' => some 34
  | '/' => some 47
  | '\\' => some 92
  | 'N' => some 0x85
  | '_' => some 0xa0
  | 'L' => some 0x2028
  | 'P' => some 0x2029
  | _ => none

/-- How many digits follow the letter of a code. -/
def codeLength? : Char → Option Nat
  | 'x' => some 2
  | 'u' => some 4
  | 'U' => some 8
  | _ => none

/-- The character of a code, if there is one. -/
def charOfCode? (code : Nat) : Option Char :=
  if (0xd800 ≤ code ∧ code ≤ 0xdfff) ∨ 0x10ffff < code then none else some (Char.ofNat code)

/-- The character behind a backslash, and how many characters write it. -/
def readEscape : List Char → Option (Char × Nat)
  | [] => none
  | c :: rest =>
      match codeLength? c with
      | some n =>
          if rest.length < n then none
          else do
            let code ← hexNumber? (rest.take n)
            let char ← charOfCode? code
            return (char, n + 1)
      | none => (escaped? c).map fun code => (Char.ofNat code, 1)

/-- Why the characters of a quoted scalar stop. -/
inductive QuotedStop where
  /-- At the closing quote. -/
  | closed
  /-- At a gap. -/
  | gap
  /-- Behind a backslash at the end of a line. -/
  | escapedBreak
  deriving Repr, DecidableEq

/-- The characters of a quoted scalar up to a gap or the closing quote. -/
def takeQuoted (single : Bool) : Nat → List Char → Cursor → Option (List Char × QuotedStop × Cursor)
  | 0, _, _ => none
  | fuel + 1, text, cursor =>
      match cursor.rest with
      | [] => some (text, .gap, cursor)
      | c :: rest =>
          if isSpaceOrTab c || isBreak c then some (text, .gap, cursor)
          else if single then
            if c = '\'' then
              if rest.head? = some '\'' then
                takeQuoted single fuel (text ++ ['\'']) (cursor.advance 2)
              else some (text, .closed, cursor)
            else takeQuoted single fuel (text ++ [c]) (cursor.advance 1)
          else if c = '"' then some (text, .closed, cursor)
          else if c = '\\' then
            if rest.head?.any isBreak then some (text, .escapedBreak, (cursor.advance 1).skipBreak)
            else do
              let (char, n) ← readEscape rest
              takeQuoted single fuel (text ++ [char]) (cursor.advance (n + 1))
          else takeQuoted single fuel (text ++ [c]) (cursor.advance 1)

/-- Read a quoted scalar behind its opening quote. -/
def readQuotedFrom (single : Bool) : Nat → List Char → Cursor → Option (List Char × Cursor)
  | 0, _, _ => none
  | fuel + 1, text, cursor =>
      if cursor.atDocumentMarker || cursor.rest = [] then none
      else do
        let (text, stop, behind) ← takeQuoted single (cursor.rest.length + 1) text cursor
        match stop with
        | .closed => return (text, behind.advance 1)
        | .gap =>
            let (gap, next) ← behind.readGap 0 none
            readQuotedFrom single fuel (text ++ gap.text) next
        | .escapedBreak =>
            if behind.rest.head? = some '"' then return (text, behind.advance 1)
            let (gap, next) ← behind.readGap 0 (some [])
            readQuotedFrom single fuel (text ++ gap.text) next

/-- **Read a scalar in quotes.** -/
def Cursor.readQuoted (cursor : Cursor) (single : Bool) : Option (List Char × Cursor) :=
  readQuotedFrom single (cursor.rest.length + 1) [] (cursor.advance 1)

/-! ## §4. Blocks. -/

/-- What happens to the line ends behind a block. -/
inductive Chomping where
  /-- None is kept. -/
  | strip
  /-- The first is kept. -/
  | clip
  /-- All are kept. -/
  | keep
  deriving Repr, DecidableEq

/-- Line ends between indentation; the cursor is behind the indentation of the
next line that is not empty.  Without an indentation given (`0`), the widest one
that was met is returned with them. -/
def readIndents (indent : Nat) :
    Nat → Nat → List Char → Cursor → Option (Nat × List Char × Cursor)
  | 0, widest, breaks, cursor => some (widest, breaks, cursor)
  | fuel + 1, widest, breaks, cursor =>
      let spaces := cursor.rest.takeWhile fun c => decide (c = ' ')
      let cursor :=
        cursor.advance (if indent = 0 then spaces.length
          else min spaces.length (indent - cursor.column))
      let widest := max widest cursor.column
      if (indent = 0 ∨ cursor.column < indent) ∧ cursor.rest.head? = some '\t' then none
      else
        match cursor.takeBreak with
        | none => some (widest, breaks, cursor)
        | some (line, next) => readIndents indent fuel widest (breaks ++ line) next

/-- The chomping and the indentation that the head of a block asks for. -/
def readBlockHead (cursor : Cursor) : Option (Chomping × Nat × Cursor) := do
  let (chomping, cursor) := readChomping cursor
  let (increment, cursor) ← readIncrement cursor
  let (chomping, cursor) :=
    match chomping with
    | some chomping => (chomping, cursor)
    | none =>
        let (late, behind) := readChomping cursor
        (late.getD .clip, behind)
  return (chomping, increment, ← cursor.finishLine)
where
  readChomping (cursor : Cursor) : Option Chomping × Cursor :=
    match cursor.rest with
    | '+' :: _ => (some .keep, cursor.advance 1)
    | '-' :: _ => (some .strip, cursor.advance 1)
    | _ => (none, cursor)
  readIncrement (cursor : Cursor) : Option (Nat × Cursor) :=
    match cursor.rest with
    | c :: _ =>
        if c = '0' then none
        else if c.isDigit then some (c.toNat - 48, cursor.advance 1)
        else some (0, cursor)
    | [] => some (0, cursor)

/-- A block while its lines are read. -/
structure BlockText where
  text : List Char
  /-- The end of the last line. -/
  lineEnd : List Char
  /-- The ends of the empty lines after it. -/
  emptyLines : List Char
  /-- Whether the last line began with a blank. -/
  indented : Bool
  deriving Repr, DecidableEq

/-- The text with a line that begins at the cursor still to come. -/
def BlockText.join (block : BlockText) (literal indented : Bool) : List Char :=
  let between :=
    if !literal && block.lineEnd = ['\n'] && !block.indented && !indented then
      if block.emptyLines = [] then [' '] else []
    else block.lineEnd
  block.text ++ between ++ block.emptyLines

/-- Read the lines of a block that are indented by `indent`. -/
def readLines (literal : Bool) (indent : Nat) :
    Nat → BlockText → Cursor → Option (BlockText × Cursor)
  | 0, block, cursor => some (block, cursor)
  | fuel + 1, block, cursor =>
      if cursor.column ≠ indent ∨ cursor.rest = [] then some (block, cursor)
      else
        let indented := cursor.rest.head?.any isSpaceOrTab
        let (line, behind) := cursor.take fun c => !isBreak c
        let (lineEnd, next) := (behind.takeBreak).getD ([], behind)
        match readIndents indent (next.rest.length + 1) 0 [] next with
        | none => none
        | some (_, emptyLines, next) =>
            readLines literal indent fuel
              ⟨block.join literal indented ++ line, lineEnd, emptyLines, indented⟩ next

/-- **Read a block** whose surroundings are indented by `parent` (−1 for none). -/
def Cursor.readBlock (cursor : Cursor) (literal : Bool) (parent : Int) :
    Option (List Char × Cursor) := do
  let (chomping, increment, cursor) ← readBlockHead (cursor.advance 1)
  let asked := if increment = 0 then 0 else parent.toNat + increment
  let (widest, emptyLines, cursor) ←
    readIndents asked (cursor.rest.length + 1) 0 [] cursor
  let indent := if asked = 0 then max (max widest (parent + 1).toNat) 1 else asked
  let (block, cursor) ←
    readLines literal indent (cursor.rest.length + 1) ⟨[], [], emptyLines, false⟩ cursor
  let tail :=
    match chomping with
    | .strip => []
    | .clip => block.lineEnd
    | .keep => block.lineEnd ++ block.emptyLines
  return (block.text ++ tail, cursor)

end FluidClamp.Yaml
