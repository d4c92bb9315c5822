/-
  FluidClamp.Proofs.Text.Regex
  ────────────────────────────
  **WHAT AN EXPRESSION PREFERS.**

  A match carries the proof that it is a piece of its text, which is in the way
  when matches of different texts are compared.  `takings` lists the same matches
  without it, and has one equation for each kind of expression.  From these
  follows what the expressions at hand prefer:

    • a literal matches in one way or in none,
    • a repeated character class prefers to take all it can, and every other way
      of it stops before a character of the class,
    • a sequence of preferred matches is preferred.
-/
import FluidClamp.Text.Cut
import FluidClamp.Text.Regex

namespace FluidClamp.Regex

/-! ## §1. Matches without their proofs. -/

/-- What a match takes and leaves. -/
structure Taking where
  groups : List (List Char)
  taken : List Char
  rest : List Char
  deriving Repr, DecidableEq

namespace Taking

/-- Nothing is taken of a text. -/
def nothing (text : List Char) : Taking := ⟨[], [], text⟩

/-- One taking and another behind it. -/
def append (a b : Taking) : Taking := ⟨a.groups ++ b.groups, a.taken ++ b.taken, b.rest⟩

/-- A taking that is kept as a group. -/
def keep (a : Taking) : Taking := { a with groups := a.taken :: a.groups }

end Taking

/-- A match without its proof. -/
def Match.taking {text : List Char} (m : Match text) : Taking := ⟨m.groups, m.taken, m.rest⟩

/-- **All matches at the front of a text**, the preferred ones first. -/
def takings (isStart : Bool) (p : Regex) (text : List Char) : List Taking :=
  (p.ways isStart text).map Match.taking

/-! ## §2. One equation for each kind of expression. -/

variable (isStart : Bool) (p q : Regex) (text : List Char)

theorem takings_nothing : takings isStart .nothing text = [.nothing text] := by
  unfold takings ways
  rfl

theorem takings_start :
    takings isStart .start text = if isStart then [.nothing text] else [] := by
  unfold takings ways
  cases isStart <;> rfl

theorem takings_one_nil (isMember : Char → Bool) : takings isStart (.one isMember) [] = [] := by
  unfold takings ways
  rfl

theorem takings_one_cons (isMember : Char → Bool) (c : Char) :
    takings isStart (.one isMember) (c :: text) =
      if isMember c then [⟨[], [c], text⟩] else [] := by
  unfold takings ways
  split <;> rfl

theorem takings_seq :
    takings isStart (.seq p q) text =
      (takings isStart p text).flatMap fun a =>
        (takings (isStart && a.taken.isEmpty) q a.rest).map a.append := by
  unfold takings
  rw [ways, List.map_flatMap, List.flatMap_map]
  -- match by match of `p`, only the proofs differ
  refine congrArg (fun f => (ways isStart p text).flatMap f) (funext fun m => ?_)
  rw [List.map_map, List.map_map]
  rfl

theorem takings_either :
    takings isStart (.either p q) text = takings isStart p text ++ takings isStart q text := by
  unfold takings
  rw [ways, List.map_append]

theorem takings_many :
    takings isStart (.many p) text =
      ((takings isStart p text).flatMap fun a =>
        if a.taken = [] then [] else (takings false (.many p) a.rest).map a.append) ++
      [.nothing text] := by
  unfold takings
  rw [ways, List.map_append, List.map_flatMap, List.flatMap_map]
  congr 1
  refine congrArg (fun f => (ways isStart p text).flatMap f) (funext fun m => ?_)
  by_cases h : m.taken = []
  · -- a repetition that takes nothing would not end, so there is none
    simp [h, Match.taking]
  · simp only [h, Match.taking, dite_false, if_false, List.map_map]
    rfl

theorem takings_group :
    takings isStart (.group p) text = (takings isStart p text).map Taking.keep := by
  unfold takings
  rw [ways, List.map_map, List.map_map]
  rfl

/-! ## §3. What is preferred. -/

variable {isStart : Bool} {p q : Regex} {text : List Char}

/-- A sequence of preferred matches is preferred. -/
theorem head?_takings_seq {a b : Taking} (ha : (takings isStart p text).head? = Option.some a)
    (hb : (takings (isStart && a.taken.isEmpty) q a.rest).head? = Option.some b) :
    (takings isStart (.seq p q) text).head? = Option.some (a.append b) := by
  obtain ⟨others, hothers⟩ := List.head?_eq_some_iff.1 ha
  rw [takings_seq, hothers, List.flatMap_cons, List.head?_append, List.head?_map, hb]
  rfl

/-- A sequence fails where its first part fails. -/
theorem takings_seq_eq_nil (h : takings isStart p text = []) :
    takings isStart (.seq p q) text = [] := by
  rw [takings_seq, h]
  rfl

/-- One more repetition is preferred, if it takes something. -/
theorem head?_takings_many {a b : Taking} (ha : (takings isStart p text).head? = Option.some a)
    (hne : a.taken ≠ []) (hb : (takings false (.many p) a.rest).head? = Option.some b) :
    (takings isStart (.many p) text).head? = Option.some (a.append b) := by
  obtain ⟨others, hothers⟩ := List.head?_eq_some_iff.1 ha
  rw [takings_many, hothers, List.flatMap_cons, if_neg hne, List.append_assoc,
    List.head?_append, List.head?_map, hb]
  rfl

/-- What cannot be matched is repeated no time. -/
theorem takings_many_of_nil (h : takings isStart p text = []) :
    takings isStart (.many p) text = [.nothing text] := by
  rw [takings_many, h]
  rfl

/-! ## §4. Literals and repeated characters. -/

/-- A literal matches in one way or in none. -/
theorem takings_literal (word : List Char) :
    ∀ (isStart : Bool) (text : List Char),
      takings isStart (literal word) text =
        match after? word text with
        | none => []
        | Option.some rest => [⟨[], word, rest⟩] := by
  induction word with
  | nil =>
      intro isStart text
      unfold literal
      exact takings_nothing isStart text
  | cons c word ih =>
      intro isStart text
      unfold literal
      cases text with
      | nil =>
          rw [takings_seq_eq_nil (takings_one_nil _ _)]
          rfl
      | cons d text =>
          rw [takings_seq, takings_one_cons]
          by_cases hc : d = c
          · subst hc
            simp only [beq_self_eq_true, if_true, List.flatMap_cons, List.flatMap_nil,
              List.append_nil, ih, after?]
            cases after? word text <;> rfl
          · have hcd : ¬ c = d := fun h => hc h.symm
            simp [hc, hcd, after?]

/-- A repeated class of characters prefers to take all it can. -/
theorem head?_takings_many_one (isMember : Char → Bool) (text : List Char) :
    ∀ isStart : Bool, (takings isStart (.many (.one isMember)) text).head? =
      Option.some ⟨[], text.takeWhile isMember, text.dropWhile isMember⟩ := by
  induction text with
  | nil =>
      intro isStart
      rw [takings_many_of_nil (takings_one_nil _ _)]
      rfl
  | cons c text ih =>
      intro isStart
      by_cases hc : isMember c = true
      · have hone : (takings isStart (.one isMember) (c :: text)).head? =
            Option.some ⟨[], [c], text⟩ := by
          rw [takings_one_cons, if_pos hc]
          rfl
        rw [head?_takings_many hone (by simp) (ih false), List.takeWhile_cons_of_pos hc,
          List.dropWhile_cons_of_pos hc]
        rfl
      · have hone : takings isStart (.one isMember) (c :: text) = [] := by
          rw [takings_one_cons, if_neg hc]
        rw [takings_many_of_nil hone, List.takeWhile_cons_of_neg hc,
          List.dropWhile_cons_of_neg hc]
        rfl

/-- Where it takes less, a character of the class comes next. -/
theorem rest_of_mem_takings_many_one (isMember : Char → Bool) (text : List Char) :
    ∀ (isStart : Bool), ∀ a ∈ takings isStart (.many (.one isMember)) text,
      a.rest = text.dropWhile isMember ∨ ∃ c rest, a.rest = c :: rest ∧ isMember c = true := by
  induction text with
  | nil =>
      intro isStart a ha
      rw [takings_many_of_nil (takings_one_nil _ _), List.mem_singleton] at ha
      subst ha
      exact .inl rfl
  | cons c text ih =>
      intro isStart a ha
      by_cases hc : isMember c = true
      · rw [takings_many, takings_one_cons, if_pos hc, List.flatMap_cons, List.flatMap_nil,
          List.append_nil, if_neg (by simp), List.mem_append, List.mem_map,
          List.mem_singleton] at ha
        rw [List.dropWhile_cons_of_pos hc]
        rcases ha with ⟨b, hb, rfl⟩ | rfl
        · -- it goes on behind `c`
          exact ih false b hb
        · -- it stops before `c`
          exact .inr ⟨c, text, rfl, hc⟩
      · have hone : takings isStart (.one isMember) (c :: text) = [] := by
          rw [takings_one_cons, if_neg hc]
        rw [takings_many_of_nil hone, List.mem_singleton] at ha
        subst ha
        rw [List.dropWhile_cons_of_neg hc]
        exact .inl rfl

/-! ## §5. Going through a text. -/

theorem captures_nil : captures p isStart [] = [] := by
  rw [captures]

/-- Without a match the search goes on behind the first character. -/
theorem captures_cons_of_none {c : Char} (h : (takings isStart p (c :: text)).head? = none) :
    captures p isStart (c :: text) = captures p false text := by
  unfold takings at h
  rw [List.head?_map, Option.map_eq_none_iff] at h
  rw [captures, h]

/-- A match that takes something is listed, and the search goes on behind it. -/
theorem captures_cons_of_some {c : Char} {a : Taking}
    (h : (takings isStart p (c :: text)).head? = Option.some a) (hne : a.taken ≠ []) :
    captures p isStart (c :: text) = a.groups :: captures p false a.rest := by
  unfold takings at h
  rw [List.head?_map, Option.map_eq_some_iff] at h
  obtain ⟨m, hm, rfl⟩ := h
  rw [captures, hm]
  exact dif_neg hne

end FluidClamp.Regex
