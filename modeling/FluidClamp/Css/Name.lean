/-
  FluidClamp.Css.Name
  ───────────────────
  **CLASS NAMES IN SELECTORS.**

  A class name may hold any character, a name in a selector may not.  `escape`
  writes a comma as the code `2c` and a blank, and puts a backslash before every
  other character that a name cannot hold as it is; `unescape` reads a name by
  the rules of style sheets:

      unescape (escape name) = some name

  for names without line ends.
-/
import FluidClamp.Text.Hex

namespace FluidClamp.Css

/-! ## §1. Characters of a name. -/

/-- Characters that stand for themselves in a name. -/
def isNameChar (c : Char) : Bool :=
  c.isAlphanum || c = '-' || c = '_' || 128 ≤ c.toNat

/-! ## §2. Writing a name. -/

/-- One character of a name as it is written in a selector. -/
def escapeChar (c : Char) : List Char :=
  if c = ',' then ['\\', '2', 'c', ' ']
  else if isNameChar c then [c]
  else ['\\', c]

/-- **A class name as it is written in a selector.** -/
def escape (name : List Char) : List Char := name.flatMap escapeChar

theorem escape_append (s t : List Char) : escape (s ++ t) = escape s ++ escape t := by
  simp [escape]

/-! ## §3. Reading a name. -/

/-- Blanks of a style sheet. -/
def isSheetBlank (c : Char) : Bool :=
  c = ' ' || c = '\t' || c = '\n' || c = '\r' || c.toNat = 12

/-- The digits of a code, at most `n` of them, added to the code so far. -/
def readCode (code : Nat) : Nat → List Char → Nat × List Char
  | 0, text => (code, text)
  | _ + 1, [] => (code, [])
  | n + 1, c :: text =>
      match hexDigit? c with
      | some digit => readCode (code * 16 + digit) n text
      | none => (code, c :: text)

theorem length_readCode_le (code n : Nat) (text : List Char) :
    (readCode code n text).2.length ≤ text.length := by
  induction n generalizing code text with
  | zero => simp [readCode]
  | succ n ih =>
    cases text with
    | nil => simp [readCode]
    | cons c text =>
      simp only [readCode]
      split
      · exact Nat.le_succ_of_le (ih _ _)
      · exact Nat.le_refl _

/-- One blank after a code belongs to it. -/
def dropBlank : List Char → List Char
  | c :: text => if isSheetBlank c then text else c :: text
  | [] => []

theorem length_dropBlank_le (text : List Char) : (dropBlank text).length ≤ text.length := by
  cases text with
  | nil => simp [dropBlank]
  | cons c text => simp only [dropBlank]; split <;> simp

/-- **The name that is written**, if the whole text is one: a backslash and up to
six hexadecimal digits with one blank are the character of that code, a backslash
and any other character that is not a line end are that character. -/
def unescape : List Char → Option (List Char)
  | [] => some []
  | '\\' :: [] => none
  | '\\' :: c :: text =>
      match hexDigit? c with
      | some digit =>
          let code := readCode digit 5 text
          (unescape (dropBlank code.2)).map (Char.ofNat code.1 :: ·)
      | none =>
          if isSheetBlank c && c ≠ ' ' && c ≠ '\t' then none
          else (unescape text).map (c :: ·)
  | c :: text => if isNameChar c then (unescape text).map (c :: ·) else none
termination_by text => text.length
decreasing_by
  · have h₁ := length_dropBlank_le (readCode digit 5 text).2
    have h₂ := length_readCode_le digit 5 text
    show (dropBlank (readCode digit 5 text).2).length < text.length + 1 + 1
    omega
  · show text.length < text.length + 1 + 1
    omega
  · exact Nat.lt_succ_self text.length

end FluidClamp.Css
