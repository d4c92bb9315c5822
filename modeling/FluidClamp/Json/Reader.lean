/-
  FluidClamp.Json.Reader
  ──────────────────────
  **READING JSON.**

  The grammar of RFC 8259 and nothing else: no comments, no superfluous commas or
  zeros, no byte order mark.  Each reader takes something off the front of a text
  and returns it with the rest; `Json.parse?` wants nothing but blanks behind the
  value.

  What RFC 8259 leaves open is as `serde_json` 1 has it: half of a pair of escapes is
  refused where its text is needed (`StringPart`), and fields may repeat.  Values may
  be nested to any depth, as those may be that are passed over there; others are
  refused before they come near its limit.  Of a fault it is only said that there is
  one, and not what and where it is.
-/
import FluidClamp.Json.Value
import FluidClamp.Text.Cut
import FluidClamp.Text.Hex

namespace FluidClamp.Json

/-! ## §1. Blanks. -/

/-- The blanks between the parts of a value. -/
def isSpace (c : Char) : Bool := c = ' ' || c = '\t' || c = '\n' || c = '\r'

def skipSpace (text : List Char) : List Char := text.dropWhile isSpace

/-! ## §2. Strings. -/

/-- A character of a string, or a code that is half of a pair. -/
inductive StringPart where
  | char (c : Char)
  | high (code : Nat)
  | low (code : Nat)
  deriving Repr, DecidableEq

/-- The part that a four-digit code stands for. -/
def StringPart.ofCode (code : Nat) : StringPart :=
  if 0xd800 ≤ code ∧ code < 0xdc00 then .high code
  else if 0xdc00 ≤ code ∧ code < 0xe000 then .low code
  else .char (Char.ofNat code)

/-- The characters of the parts of a string, if the halves make up pairs. -/
def joinParts : List StringPart → Option (List Char)
  | [] => some []
  | .char c :: rest => (joinParts rest).map (c :: ·)
  | .high h :: .low l :: rest =>
      (joinParts rest).map (Char.ofNat (0x10000 + (h - 0xd800) * 0x400 + (l - 0xdc00)) :: ·)
  | _ :: _ => none

/-- The character of an escape with one letter. -/
def escaped? : Char → Option Char
  | '"' => some '"'
  | '\\' => some '\\'
  | '/' => some '/'
  | 'b' => some (Char.ofNat 8)
  | 'f' => some (Char.ofNat 12)
  | 'n' => some '\n'
  | 'r' => some '\r'
  | 't' => some '\t'
  | _ => none

/-- The parts of a string up to the closing quote, and the rest. -/
def readParts : List Char → Option (List StringPart × List Char)
  | [] => none
  | '"' :: rest => some ([], rest)
  | '\\' :: 'u' :: a :: b :: c :: d :: rest => do
      let code ← hexNumber? [a, b, c, d]
      let (parts, rest) ← readParts rest
      return (.ofCode code :: parts, rest)
  | '\\' :: c :: rest => do
      let c ← escaped? c
      let (parts, rest) ← readParts rest
      return (.char c :: parts, rest)
  | c :: rest =>
      if c.toNat < 0x20 ∨ c = '\\' then none
      else (readParts rest).map fun (parts, rest) => (.char c :: parts, rest)

/-- The text of a string behind its opening quote, and the rest. -/
def readString (text : List Char) : Option (Option String × List Char) :=
  (readParts text).map fun (parts, rest) => ((joinParts parts).map String.ofList, rest)

/-! ## §3. Values. -/

/-- A number at the front of a text. -/
def readNumber (text : List Char) : Option (Json × List Char) :=
  let parsed := Numeral.split text
  if parsed.1.isStrict then some (.number parsed.1, parsed.2) else none

/-- A word at the front of a text. -/
def readWord (text : List Char) : Option (Json × List Char) :=
  match after? ['n', 'u', 'l', 'l'] text, after? ['t', 'r', 'u', 'e'] text,
      after? ['f', 'a', 'l', 's', 'e'] text with
  | some rest, _, _ => some (.null, rest)
  | none, some rest, _ => some (.bool true, rest)
  | none, none, some rest => some (.bool false, rest)
  | none, none, none => none

/-- Behind a value in a list: whether a comma follows, or the closing bracket. -/
def readSeparator (closing : Char) (text : List Char) : Option (Bool × List Char) :=
  match skipSpace text with
  | c :: rest =>
      if c = ',' then some (true, rest) else if c = closing then some (false, rest) else none
  | [] => none

mutual

/-- A value at the front of a text, and the rest.  Every level and every item of a
list takes from `fuel`. -/
def readValue : Nat → List Char → Option (Json × List Char)
  | 0, _ => none
  | fuel + 1, text =>
      match skipSpace text with
      | [] => none
      | '"' :: rest => (readString rest).map fun (text, rest) => (.string text, rest)
      | '[' :: rest =>
          match skipSpace rest with
          | ']' :: rest => some (.array [], rest)
          | _ => (readItems fuel rest).map fun (items, rest) => (.array items, rest)
      | '{' :: rest =>
          match skipSpace rest with
          | '}' :: rest => some (.object [], rest)
          | _ => (readFields fuel rest).map fun (fields, rest) => (.object fields, rest)
      | text =>
          match readWord text with
          | some found => some found
          | none => readNumber text

/-- The items of an array up to its closing bracket; there is at least one. -/
def readItems : Nat → List Char → Option (List Json × List Char)
  | 0, _ => none
  | fuel + 1, text => do
      let (item, rest) ← readValue fuel text
      let (more, rest) ← readSeparator ']' rest
      if more then
        let (items, rest) ← readItems fuel rest
        return (item :: items, rest)
      else return ([item], rest)

/-- The fields of an object up to its closing brace; there is at least one. -/
def readFields : Nat → List Char → Option (List (Option String × Json) × List Char)
  | 0, _ => none
  | fuel + 1, text =>
      match skipSpace text with
      | '"' :: rest => do
          let (key, rest) ← readString rest
          match skipSpace rest with
          | ':' :: rest =>
              let (value, rest) ← readValue fuel rest
              let (more, rest) ← readSeparator '}' rest
              if more then
                let (fields, rest) ← readFields fuel rest
                return ((key, value) :: fields, rest)
              else return ([(key, value)], rest)
          | _ => none
      | _ => none

end

/-- **Read a JSON text.** -/
def parse? (text : String) : Option Json :=
  match readValue (2 * text.length + 2) text.toList with
  | some (value, rest) => if skipSpace rest = [] then some value else none
  | none => none

end FluidClamp.Json
