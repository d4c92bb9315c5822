/-
  FluidClamp.Text.Regex
  ─────────────────────
  **REGULAR EXPRESSIONS WITH PREFERENCES.**

  At one place of a text an expression may match in several ways, and it prefers
  some to others: of two alternatives the first one, and of repetitions as many
  as possible.  `ways` lists all of them, the preferred ones first.  `captures`
  goes through a text from the left, takes the preferred way at the first place
  where there is one, and goes on behind it.
-/

namespace FluidClamp

/-! ## §1. Expressions. -/

/-- Regular expressions. -/
inductive Regex where
  /-- Nothing, at any place. -/
  | nothing
  /-- Nothing, at the start of the whole text. -/
  | start
  /-- A character of a class. -/
  | one (isMember : Char → Bool)
  /-- One after the other. -/
  | seq (first second : Regex)
  /-- The first, or else the second. -/
  | either (first second : Regex)
  /-- Any number of times, as often as possible. -/
  | many (body : Regex)
  /-- What is taken is kept. -/
  | group (body : Regex)

namespace Regex

/-- The characters of a text. -/
def literal : List Char → Regex
  | [] => .nothing
  | c :: text => .seq (.one (· == c)) (literal text)

/-- At least once, as often as possible. -/
def some (body : Regex) : Regex := .seq body (.many body)

/-- Once, if possible. -/
def optional (body : Regex) : Regex := .either body .nothing

/-! ## §2. The ways of matching. -/

/-- A match at the front of a text, with what its groups took. -/
structure Match (text : List Char) where
  groups : List (List Char)
  taken : List Char
  rest : List Char
  text_eq : text = taken ++ rest

namespace Match

/-- The match that takes nothing. -/
def nothing (text : List Char) : Match text := ⟨[], [], text, rfl⟩

/-- A match followed by one behind it. -/
def append {text : List Char} (m : Match text) (n : Match m.rest) : Match text where
  groups := m.groups ++ n.groups
  taken := m.taken ++ n.taken
  rest := n.rest
  text_eq := by rw [List.append_assoc, ← n.text_eq, ← m.text_eq]

/-- A match that is kept as a group. -/
def keep {text : List Char} (m : Match text) : Match text :=
  { m with groups := m.taken :: m.groups }

theorem length_rest_lt {text : List Char} (m : Match text) (h : m.taken ≠ []) :
    m.rest.length < text.length := by
  have ht := List.length_pos_iff.2 h
  have hl := congrArg List.length m.text_eq
  rw [List.length_append] at hl
  omega

end Match

/-- **All matches at the front of a text**, the preferred ones first; `isStart`
says whether that is the start of the whole text.  A repetition that takes
nothing does not count. -/
def ways (isStart : Bool) : Regex → (text : List Char) → List (Match text)
  | .nothing, text => [.nothing text]
  | .start, text => if isStart then [.nothing text] else []
  | .one _, [] => []
  | .one isMember, c :: text => if isMember c then [⟨[], [c], text, rfl⟩] else []
  | .seq p q, text =>
      (ways isStart p text).flatMap fun m =>
        (ways (isStart && m.taken.isEmpty) q m.rest).map m.append
  | .either p q, text => ways isStart p text ++ ways isStart q text
  | .many p, text =>
      (ways isStart p text).flatMap (fun m =>
        if _h : m.taken = [] then [] else (ways false (.many p) m.rest).map m.append) ++
      [.nothing text]
  | .group p, text => (ways isStart p text).map Match.keep
termination_by p text => (p, text.length)
decreasing_by
  any_goals decreasing_tactic
  exact .right _ (m.length_rest_lt _h)

/-! ## §3. Going through a text. -/

/-- **The groups of the matches in a text**, from left to right.  A match that
takes nothing is passed over. -/
def captures (p : Regex) (isStart : Bool) : List Char → List (List (List Char))
  | [] => []
  | c :: text =>
      match (p.ways isStart (c :: text)).head? with
      | none => captures p false text
      | .some m =>
          if _h : m.taken = [] then captures p false text
          else m.groups :: captures p false m.rest
termination_by text => text.length
decreasing_by
  · simp
  · simp
  · exact m.length_rest_lt _h

end Regex

end FluidClamp
