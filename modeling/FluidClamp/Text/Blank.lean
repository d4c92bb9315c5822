/-
  FluidClamp.Text.Blank
  ─────────────────────
  **BLANKS, WORDS AND SEPARATORS.**

  `isBlank` is the Unicode property White_Space.  A text is cut in two ways: at
  every occurrence of a separator, empty pieces kept (`splitOn`), or into its
  words, the maximal runs without a blank (`words`).
-/

namespace FluidClamp

/-! ## §1. Blank characters. -/

/-- **The Unicode property White_Space.** -/
def isBlank (c : Char) : Bool :=
  let n := c.toNat
  (0x09 ≤ n && n ≤ 0x0d) || n = 0x20 || n = 0x85 || n = 0xa0 || n = 0x1680 ||
    (0x2000 ≤ n && n ≤ 0x200a) || n = 0x2028 || n = 0x2029 || n = 0x202f ||
    n = 0x205f || n = 0x3000

/-! ## §2. Cutting a text. -/

/-- The pieces between the characters that are separators: one more than there
are separators. -/
def splitOn (separates : Char → Bool) : List Char → List (List Char)
  | [] => [[]]
  | c :: rest =>
      if separates c then [] :: splitOn separates rest
      else
        match splitOn separates rest with
        | [] => [[c]]
        | piece :: pieces => (c :: piece) :: pieces

theorem splitOn_ne_nil (separates : Char → Bool) (text : List Char) :
    splitOn separates text ≠ [] := by
  cases text with
  | nil => simp [splitOn]
  | cons c rest =>
    simp only [splitOn]
    split
    · simp
    · split <;> simp

/-- There is one more piece than there are separators. -/
theorem length_splitOn (separates : Char → Bool) (text : List Char) :
    (splitOn separates text).length = text.countP separates + 1 := by
  induction text with
  | nil => rfl
  | cons c rest ih =>
    by_cases h : separates c = true
    · simp [splitOn, h, ih]
    · cases hs : splitOn separates rest with
      | nil => exact absurd hs (splitOn_ne_nil separates rest)
      | cons piece pieces =>
        rw [hs] at ih
        simp [splitOn, h, hs] at ih ⊢
        exact ih

/-- **The words**: the maximal runs of characters that are not blank. -/
def words (text : List Char) : List (List Char) :=
  (splitOn isBlank text).filter fun piece => !piece.isEmpty

/-- A text without anything but blanks. -/
def isAllBlank (text : List Char) : Bool := text.all isBlank

end FluidClamp
