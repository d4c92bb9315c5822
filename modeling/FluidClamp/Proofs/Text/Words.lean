/-
  FluidClamp.Proofs.Text.Words
  ────────────────────────────
  **WHAT `words` AND `splitOn` FIND.**

  `IsWords` describes the words of a text from left to right: a blank is passed
  over, and a word is a run without blanks that ends where the text ends or a
  blank follows.  A text has one list of words, and `words` computes it.  A text
  with one separator is cut into what stands before it and what stands after it.
-/
import FluidClamp.Text.Blank

namespace FluidClamp

/-! ## §1. The pieces between separators. -/

theorem splitOn_of_forall {separates : Char → Bool} {piece : List Char}
    (h : ∀ c ∈ piece, separates c = false) : splitOn separates piece = [piece] := by
  induction piece with
  | nil => rfl
  | cons c piece ih =>
    have hc := h c List.mem_cons_self
    have hpiece := ih fun d hd => h d (List.mem_cons_of_mem _ hd)
    rw [splitOn, hc, if_neg Bool.false_ne_true, hpiece]

/-- The first piece ends at the first separator. -/
theorem splitOn_append_cons {separates : Char → Bool} {piece : List Char}
    (h : ∀ c ∈ piece, separates c = false) {mark : Char} (hmark : separates mark = true)
    (rest : List Char) :
    splitOn separates (piece ++ mark :: rest) = piece :: splitOn separates rest := by
  induction piece with
  | nil =>
    show splitOn separates (mark :: rest) = [] :: splitOn separates rest
    rw [splitOn, if_pos hmark]
  | cons c piece ih =>
    have hc := h c List.mem_cons_self
    have hpiece := ih fun d hd => h d (List.mem_cons_of_mem _ hd)
    rw [List.cons_append, splitOn, hc, if_neg Bool.false_ne_true, hpiece]

/-- Each side of a separator is cut by itself. -/
theorem splitOn_append_mark {separates : Char → Bool} {mark : Char} (hmark : separates mark = true)
    (front rest : List Char) :
    splitOn separates (front ++ mark :: rest) =
      splitOn separates front ++ splitOn separates rest := by
  induction front with
  | nil =>
    show splitOn separates (mark :: rest) = [] :: splitOn separates rest
    rw [splitOn, if_pos hmark]
  | cons c front ih =>
    rw [List.cons_append, splitOn, splitOn, ih]
    split
    · rfl
    · cases hfront : splitOn separates front with
      | nil => exact absurd hfront (splitOn_ne_nil separates front)
      | cons piece pieces => rfl

/-- A text without separators, or the text up to the first one. -/
theorem exists_first_separator (separates : Char → Bool) (text : List Char) :
    (∀ c ∈ text, separates c = false) ∨
      ∃ piece mark rest, text = piece ++ mark :: rest ∧ separates mark = true ∧
        ∀ c ∈ piece, separates c = false := by
  induction text with
  | nil => exact .inl fun c hc => nomatch hc
  | cons c text ih =>
    cases hc : separates c with
    | true => exact .inr ⟨[], c, text, rfl, hc, fun d hd => nomatch hd⟩
    | false =>
      rcases ih with hnone | ⟨piece, mark, rest, rfl, hmark, hpiece⟩
      · exact .inl (List.forall_mem_cons.2 ⟨hc, hnone⟩)
      · exact .inr ⟨c :: piece, mark, rest, rfl, hmark, List.forall_mem_cons.2 ⟨hc, hpiece⟩⟩

/-- One piece is a text without separators. -/
theorem splitOn_eq_singleton_iff {separates : Char → Bool} {text piece : List Char} :
    splitOn separates text = [piece] ↔
      text = piece ∧ ∀ c ∈ piece, separates c = false := by
  constructor
  · intro h
    rcases exists_first_separator separates text with
      hnone | ⟨front, mark, rest, rfl, hmark, hfront⟩
    · rw [splitOn_of_forall hnone] at h
      obtain rfl := (List.cons.inj h).1
      exact ⟨rfl, hnone⟩
    · rw [splitOn_append_cons hfront hmark] at h
      exact absurd (List.cons.inj h).2 (splitOn_ne_nil separates rest)
  · intro hgiven
    obtain ⟨rfl, h⟩ := hgiven
    exact splitOn_of_forall h

/-- **Two pieces** are what stands before and after the only separator. -/
theorem splitOn_eq_pair_iff {separates : Char → Bool} {text first second : List Char} :
    splitOn separates text = [first, second] ↔
      ∃ mark, text = first ++ mark :: second ∧ separates mark = true ∧
        (∀ c ∈ first, separates c = false) ∧ ∀ c ∈ second, separates c = false := by
  constructor
  · intro h
    rcases exists_first_separator separates text with
      hnone | ⟨front, mark, rest, rfl, hmark, hfront⟩
    · rw [splitOn_of_forall hnone] at h
      exact nomatch h
    · rw [splitOn_append_cons hfront hmark] at h
      obtain ⟨rfl, hrest⟩ := List.cons.inj h
      obtain ⟨rfl, hsecond⟩ := splitOn_eq_singleton_iff.1 hrest
      exact ⟨mark, rfl, hmark, hfront, hsecond⟩
  · intro hgiven
    obtain ⟨mark, rfl, hmark, hfirst, hsecond⟩ := hgiven
    rw [splitOn_append_cons hfirst hmark, splitOn_of_forall hsecond]

/-! ## §2. Words. -/

/-- **The words of a text**, from left to right. -/
inductive IsWords : List Char → List (List Char) → Prop where
  | nil : IsWords [] []
  | blank {c : Char} {text : List Char} {all : List (List Char)} :
      isBlank c = true → IsWords text all → IsWords (c :: text) all
  | word {word rest : List Char} {all : List (List Char)} :
      word ≠ [] → (∀ c ∈ word, isBlank c = false) → (∀ c ∈ rest.head?, isBlank c = true) →
        IsWords rest all → IsWords (word ++ rest) (word :: all)

theorem words_cons_of_isBlank {c : Char} (h : isBlank c = true) (text : List Char) :
    words (c :: text) = words text := by
  unfold words
  rw [splitOn, if_pos h, List.filter_cons_of_neg (by simp)]

theorem words_append {word rest : List Char} (hne : word ≠ [])
    (hword : ∀ c ∈ word, isBlank c = false) (hrest : ∀ c ∈ rest.head?, isBlank c = true) :
    words (word ++ rest) = word :: words rest := by
  have hkeep : ∀ pieces : List (List Char),
      (word :: pieces).filter (fun piece => !piece.isEmpty) =
        word :: pieces.filter fun piece => !piece.isEmpty := by
    intro pieces
    apply List.filter_cons_of_pos
    rw [List.isEmpty_eq_false_iff.2 hne]
    rfl
  cases rest with
  | nil =>
    unfold words
    rw [List.append_nil, splitOn_of_forall hword, hkeep]
    rfl
  | cons c rest =>
    have hc := hrest c rfl
    rw [words_cons_of_isBlank hc]
    unfold words
    rw [splitOn_append_cons hword hc, hkeep]

theorem IsWords.words_eq {text : List Char} {all : List (List Char)} (h : IsWords text all) :
    words text = all := by
  induction h with
  | nil => rfl
  | blank hc _ ih => rw [words_cons_of_isBlank hc, ih]
  | word hne hword hrest _ ih => rw [words_append hne hword hrest, ih]

/-- The words are words.  The induction is on the length, since a whole word is
taken off the text at once. -/
theorem isWords_words (text : List Char) : IsWords text (words text) := by
  induction hlen : text.length using Nat.strongRecOn generalizing text with
  | ind len ih =>
    rcases exists_first_separator isBlank text with
      hnone | ⟨word, mark, rest, rfl, hmark, hword⟩
    · -- no blank at all: the text is one word, or empty
      cases text with
      | nil => exact .nil
      | cons c text =>
        have hend : ∀ d ∈ ([] : List Char).head?, isBlank d = true := fun d hd => nomatch hd
        have hwords := words_append (List.cons_ne_nil c text) hnone hend
        have hwhole := IsWords.word (List.cons_ne_nil c text) hnone hend .nil
        rw [List.append_nil] at hwords hwhole
        rw [hwords]
        exact hwhole
    · -- up to the first blank there is a word, unless the text begins with it
      have htail := ih rest.length (by rw [← hlen, List.length_append, List.length_cons]; omega)
        rest rfl
      have hblank : ∀ c ∈ (mark :: rest).head?, isBlank c = true := by
        intro c hc
        exact Option.some.inj hc ▸ hmark
      have hrest : IsWords (mark :: rest) (words (mark :: rest)) := by
        rw [words_cons_of_isBlank hmark]
        exact .blank hmark htail
      by_cases hne : word = []
      · subst hne
        exact hrest
      · rw [words_append hne hword hblank]
        exact .word hne hword hblank hrest

/-- **`words` computes the words.** -/
theorem isWords_iff {text : List Char} {all : List (List Char)} :
    IsWords text all ↔ words text = all :=
  ⟨IsWords.words_eq, fun h => h ▸ isWords_words text⟩

end FluidClamp
