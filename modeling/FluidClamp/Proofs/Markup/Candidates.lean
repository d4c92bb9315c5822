/-
  FluidClamp.Proofs.Markup.Candidates
  ───────────────────────────────────
  **THE CLASSES OF A TEXT ARE THOSE OF ITS RUNS.**

  The pattern takes the delimiter before a class along, has no end of its own,
  and repeats within a repetition.  None of it matters:

    • at one place it prefers the longest class (`takeClass`),
    • a class holds no delimiter, so what is taken ends in the run of characters
      where it began, and the delimiter behind that run is still there,
    • inside a run nothing is found, and behind a delimiter the search is as it
      is at the start of a text.

  So the classes of a text are found by cutting it at its delimiters and taking
  the longest class at the front of each piece.
-/
import FluidClamp.Proofs.Markup.Language
import FluidClamp.Proofs.Text.Regex
import Mathlib.Data.List.Infix

namespace FluidClamp.Markup

open Regex (Taking takings)

/-! ## §1. What the pattern prefers at one place. -/

/-- One word is taken to its end. -/
theorem head?_takings_word (isStart : Bool) (text : List Char) :
    (takings isStart word text).head? =
      if startsWord text then
        some ⟨[], text.takeWhile Char.isAlphanum, text.dropWhile Char.isAlphanum⟩
      else none := by
  unfold word Regex.some
  cases text with
  | nil =>
      rw [Regex.takings_seq_eq_nil (Regex.takings_one_nil _ _)]
      rfl
  | cons c text =>
      unfold startsWord
      by_cases hc : c.isAlphanum = true
      · have hone : (takings isStart (.one Char.isAlphanum) (c :: text)).head? =
            some ⟨[], [c], text⟩ := by
          rw [Regex.takings_one_cons, if_pos hc]
          rfl
        rw [Regex.head?_takings_seq hone (Regex.head?_takings_many_one _ _ _), if_pos hc,
          List.takeWhile_cons_of_pos hc, List.dropWhile_cons_of_pos hc]
        rfl
      · have hone : takings isStart (.one Char.isAlphanum) (c :: text) = [] := by
          rw [Regex.takings_one_cons, if_neg hc]
        rw [Regex.takings_seq_eq_nil hone, if_neg hc]
        rfl

theorem takings_word_eq_nil {isStart : Bool} {text : List Char} (h : startsWord text = false) :
    takings isStart word text = [] := by
  rw [← List.head?_eq_none_iff, head?_takings_word, h]
  rfl

/-- The words are a word and what is read from its end on. -/
theorem takeWords_eq (text : List Char) :
    takeWords text =
      (text.takeWhile Char.isAlphanum ++ (takeWords (text.dropWhile Char.isAlphanum)).1,
        (takeWords (text.dropWhile Char.isAlphanum)).2) := by
  have hall : ∀ c ∈ text.takeWhile Char.isAlphanum, c.isAlphanum = true :=
    List.all_eq_true.1 List.all_takeWhile
  have h := takeWords_alphanum_append hall (text.dropWhile Char.isAlphanum)
  rw [List.takeWhile_append_dropWhile] at h
  exact h

theorem startsWord_dropWhile (text : List Char) :
    startsWord (text.dropWhile Char.isAlphanum) = false := by
  induction text with
  | nil => rfl
  | cons c text ih =>
      by_cases hc : c.isAlphanum = true
      · rw [List.dropWhile_cons_of_pos hc]
        exact ih
      · rw [List.dropWhile_cons_of_neg hc]
        exact Bool.eq_false_iff.2 hc

/-- A dash is taken along only with a word behind it. -/
theorem takings_dash_word (isStart : Bool) (text : List Char) :
    takings isStart (.seq (.literal ['-']) word) ('-' :: text) =
      (takings false word text).map (Taking.append ⟨[], ['-'], text⟩) := by
  rw [Regex.takings_seq, Regex.takings_literal]
  simp [after?]

/-- Where no word begins, the words that are repeated are those after dashes. -/
theorem head?_takings_many_dash_word (text : List Char) (h : startsWord text = false) :
    ∀ isStart : Bool, (takings isStart (.many (.seq (.literal ['-']) word)) text).head? =
      some ⟨[], (takeWords text).1, (takeWords text).2⟩ := by
  -- on the length, since one repetition takes a whole word off the text
  induction hn : text.length using Nat.strong_induction_on generalizing text with
  | _ n ih =>
    intro isStart
    by_cases hdash : ∃ rest, text = '-' :: rest ∧ startsWord rest = true
    · obtain ⟨rest, rfl, hrest⟩ := hdash
      have hbody : (takings isStart (.seq (.literal ['-']) word) ('-' :: rest)).head? =
          some ⟨[], '-' :: rest.takeWhile Char.isAlphanum, rest.dropWhile Char.isAlphanum⟩ := by
        rw [takings_dash_word, List.head?_map, head?_takings_word, hrest]
        rfl
      have hlen : (rest.dropWhile Char.isAlphanum).length < n := by
        have hle := (List.dropWhile_suffix Char.isAlphanum (l := rest)).length_le
        rw [← hn, List.length_cons]
        omega
      have hnext := ih _ hlen _ (startsWord_dropWhile rest) rfl false
      have hwords : takeWords ('-' :: rest) = ('-' :: (takeWords rest).1, (takeWords rest).2) := by
        rw [takeWords, hrest, if_pos (by decide)]
      rw [Regex.head?_takings_many hbody (by simp) hnext, hwords, takeWords_eq rest]
      rfl
    · have hbody : takings isStart (.seq (.literal ['-']) word) text = [] := by
        cases text with
        | nil => exact Regex.takings_seq_eq_nil (Regex.takings_literal _ _ _)
        | cons c rest =>
            by_cases hc : c = '-'
            · subst hc
              have hrest : startsWord rest = false :=
                Bool.eq_false_iff.2 fun hr => hdash ⟨rest, rfl, hr⟩
              rw [takings_dash_word, takings_word_eq_nil hrest]
              rfl
            · refine Regex.takings_seq_eq_nil ?_
              have hc' : ¬ '-' = c := fun hd => hc hd.symm
              rw [Regex.takings_literal]
              simp [after?, hc']
      have hwords : takeWords text = ([], text) := by
        cases text with
        | nil => rfl
        | cons c rest =>
            have hc : c.isAlphanum = false := h
            rw [takeWords, hc, if_neg]
            intro hor
            simp only [Bool.false_or, Bool.and_eq_true, decide_eq_true_eq] at hor
            exact hdash ⟨rest, by rw [hor.1], hor.2⟩
      rw [Regex.takings_many_of_nil hbody, hwords]
      rfl

/-- **Words**: as many as there are. -/
theorem head?_takings_words (isStart : Bool) {text : List Char} (h : startsWord text = true) :
    (takings isStart words text).head? =
      some ⟨[], (takeWords text).1, (takeWords text).2⟩ := by
  have hword : (takings isStart word text).head? =
      some ⟨[], text.takeWhile Char.isAlphanum, text.dropWhile Char.isAlphanum⟩ := by
    rw [head?_takings_word, if_pos h]
  unfold words
  rw [Regex.head?_takings_seq hword
    (head?_takings_many_dash_word _ (startsWord_dropWhile text) _), takeWords_eq text]
  rfl

/-- Characters of a value and a bracket: the value ends where no more of its
characters follow, or there is no match. -/
theorem head?_takings_value (isStart : Bool) (body : List Char) :
    (takings isStart (.seq (.some (.one isValueChar)) (.literal [']'])) body).head? =
      (takeValue? body).map fun taken => ⟨[], taken.1 ++ [']'], taken.2⟩ := by
  unfold Regex.some
  cases body with
  | nil =>
      rw [Regex.takings_seq_eq_nil (Regex.takings_seq_eq_nil (Regex.takings_one_nil _ _))]
      rfl
  | cons c body =>
      by_cases hc : isValueChar c = true
      · have hone : (takings isStart (.one isValueChar) (c :: body)).head? =
            some ⟨[], [c], body⟩ := by
          rw [Regex.takings_one_cons, if_pos hc]
          rfl
        have hsome := Regex.head?_takings_seq hone
          (Regex.head?_takings_many_one isValueChar body _)
        unfold takeValue?
        rw [List.takeWhile_cons_of_pos hc, List.dropWhile_cons_of_pos hc]
        by_cases hclose : ∃ rest, body.dropWhile isValueChar = ']' :: rest
        · obtain ⟨rest, hrest⟩ := hclose
          refine (Regex.head?_takings_seq hsome
            (b := ⟨[], [']'], rest⟩) ?_).trans ?_
          · show (takings _ _ (body.dropWhile isValueChar)).head? = _
            rw [hrest, Regex.takings_literal]
            rfl
          · rw [hrest]
            rfl
        · -- a shorter value stops before one of its characters, which is no bracket
          have hnone : takings isStart (.seq (.seq (.one isValueChar)
              (.many (.one isValueChar))) (.literal [']'])) (c :: body) = [] := by
            rw [Regex.takings_seq, List.flatMap_eq_nil_iff]
            intro a ha
            rw [Regex.takings_seq, Regex.takings_one_cons, if_pos hc, List.flatMap_cons,
              List.flatMap_nil, List.append_nil, List.mem_map] at ha
            obtain ⟨b, hb, rfl⟩ := ha
            have hafter : after? [']'] (Taking.append ⟨[], [c], body⟩ b).rest = none := by
              show after? [']'] b.rest = none
              rw [Option.eq_none_iff_forall_not_mem]
              intro rest hrest
              have hb_rest : b.rest = ']' :: rest := after?_eq_some_iff.1 hrest
              rcases Regex.rest_of_mem_takings_many_one _ _ _ b hb with hd | ⟨d, tail, hd, hmem⟩
              · exact hclose ⟨rest, hd.symm.trans hb_rest⟩
              · rw [hb_rest] at hd
                cases hd
                exact absurd hmem (by decide)
            rw [List.map_eq_nil_iff, Regex.takings_literal, hafter]
          rw [hnone]
          split
          · next htake hdrop => exact absurd ⟨_, hdrop⟩ hclose
          · rfl
      · have hone : takings isStart (.one isValueChar) (c :: body) = [] := by
          rw [Regex.takings_one_cons, if_neg hc]
        unfold takeValue?
        rw [Regex.takings_seq_eq_nil (Regex.takings_seq_eq_nil hone),
          List.takeWhile_cons_of_neg hc]
        rfl

/-- **A value in brackets**, where a whole one stands. -/
theorem head?_takings_optional_bracketed (isStart : Bool) (text : List Char) :
    (takings isStart (.optional bracketed) text).head? =
      some ⟨[], (takeBracketed text).1, (takeBracketed text).2⟩ := by
  unfold Regex.optional bracketed takeBracketed
  rw [Regex.takings_either, Regex.takings_seq, Regex.takings_literal, Regex.takings_nothing]
  cases after? ['-', '['] text with
  | none => rfl
  | some body =>
      simp only [List.flatMap_cons, List.flatMap_nil, List.append_nil, List.head?_append,
        List.head?_map, head?_takings_value, Option.bind_some]
      cases takeValue? body with
      | none => rfl
      | some taken => rfl

/-- **One class**: the pattern prefers the one that is read from left to right. -/
theorem head?_takings_className (isStart : Bool) (text : List Char) :
    (takings isStart className text).head? =
      (takeClass text).map fun found => ⟨[], found.1, found.2⟩ := by
  unfold className takeClass
  rw [Regex.takings_seq, Regex.takings_literal]
  cases after? ClassName.start.toList text with
  | none => rfl
  | some body =>
      simp only [List.flatMap_cons, List.flatMap_nil, List.append_nil, List.head?_map]
      by_cases hstart : startsWord body = true
      · rw [Regex.head?_takings_seq (head?_takings_words _ hstart)
          (head?_takings_optional_bracketed _ _), if_pos hstart]
        rfl
      · have hwords : takings (isStart && ClassName.start.toList.isEmpty) words body = [] := by
          unfold words
          exact Regex.takings_seq_eq_nil (takings_word_eq_nil (Bool.eq_false_iff.2 hstart))
        rw [Regex.takings_seq_eq_nil hwords, if_neg hstart]
        rfl

/-! ## §2. One step of the search. -/

/-- What the search takes behind a delimiter. -/
theorem head?_takings_delimiter (isStart : Bool) (c : Char) (text : List Char) :
    (takings isStart (.seq (.one isDelimiter) (.group className)) (c :: text)).head? =
      if isDelimiter c then
        (takeClass text).map fun found => ⟨[found.1], c :: found.1, found.2⟩
      else none := by
  rw [Regex.takings_seq, Regex.takings_one_cons]
  by_cases hc : isDelimiter c = true
  · simp only [hc, if_true, List.flatMap_cons, List.flatMap_nil, List.append_nil, List.head?_map,
      Regex.takings_group, head?_takings_className, Option.map_map]
    rfl
  · simp [hc]

/-- What the search takes at the start of the text. -/
theorem head?_takings_start (isStart : Bool) (text : List Char) :
    (takings isStart (.seq .start (.group className)) text).head? =
      if isStart then (takeClass text).map fun found => ⟨[found.1], found.1, found.2⟩
      else none := by
  rw [Regex.takings_seq, Regex.takings_start]
  cases isStart with
  | false => rfl
  | true =>
      simp only [if_true, List.flatMap_cons, List.flatMap_nil, List.append_nil, List.head?_map,
        Regex.takings_group, head?_takings_className, Option.map_map]
      rfl

theorem head?_takings_pattern (isStart : Bool) (c : Char) (text : List Char) :
    (takings isStart pattern (c :: text)).head? =
      (if isStart then
        (takeClass (c :: text)).map fun found => ⟨[found.1], found.1, found.2⟩
      else none).or
      (if isDelimiter c then
        (takeClass text).map fun found => ⟨[found.1], c :: found.1, found.2⟩
      else none) := by
  unfold pattern
  rw [← head?_takings_start, ← head?_takings_delimiter isStart, ← List.head?_append,
    Regex.takings_seq, Regex.takings_seq, Regex.takings_seq, Regex.takings_either,
    List.flatMap_append]

/-- What the search finds from a place on. -/
def foundFrom (isStart : Bool) (text : List Char) : List (List Char) :=
  (pattern.captures isStart text).filterMap List.head?

theorem foundFrom_nil (isStart : Bool) : foundFrom isStart [] = [] := by
  unfold foundFrom
  rw [Regex.captures_nil]
  rfl

/-- A class at the start of the text is found, and the search goes on behind it. -/
theorem foundFrom_start {text taken rest : List Char} (h : takeClass text = some (taken, rest)) :
    foundFrom true text = taken :: foundFrom false rest := by
  have hne : taken ≠ [] := (isClass_of_takeClass h).2.ne_nil
  cases text with
  | nil => simp [takeClass, after?, ClassName.start] at h
  | cons c text =>
      have hhead := head?_takings_pattern true c text
      rw [h] at hhead
      unfold foundFrom
      rw [Regex.captures_cons_of_some hhead hne]
      rfl

/-- Where the text does not start with a class, the start is a place like others. -/
theorem foundFrom_of_takeClass_eq_none {text : List Char} (h : takeClass text = none) :
    foundFrom true text = foundFrom false text := by
  cases text with
  | nil => rw [foundFrom_nil, foundFrom_nil]
  | cons c text =>
      have hsame : (takings true pattern (c :: text)).head? =
          (takings false pattern (c :: text)).head? := by
        rw [head?_takings_pattern, head?_takings_pattern, h]
        rfl
      unfold foundFrom
      -- both searches prefer the same, so they take the same step and go on alike
      cases hhead : (takings false pattern (c :: text)).head? with
      | none =>
          rw [Regex.captures_cons_of_none hhead, Regex.captures_cons_of_none (hsame.trans hhead)]
      | some a =>
          have hne : a.taken ≠ [] := by
            rw [head?_takings_pattern] at hhead
            simp only [Bool.false_eq_true, if_false, Option.none_or] at hhead
            split at hhead
            · obtain ⟨found, -, rfl⟩ := Option.map_eq_some_iff.1 hhead
              simp
            · simp at hhead
          rw [Regex.captures_cons_of_some hhead hne,
            Regex.captures_cons_of_some (hsame.trans hhead) hne]

/-- Nothing is found behind a character that is no delimiter. -/
theorem foundFrom_cons_of_not_delimiter {c : Char} (h : isDelimiter c = false)
    (text : List Char) : foundFrom false (c :: text) = foundFrom false text := by
  have hhead := head?_takings_pattern false c text
  rw [h] at hhead
  unfold foundFrom
  rw [Regex.captures_cons_of_none hhead]

/-- **Behind a delimiter the search is as at the start of a text.** -/
theorem foundFrom_delimiter {c : Char} (h : isDelimiter c = true) (text : List Char) :
    foundFrom false (c :: text) = foundFrom true text := by
  have hhead := head?_takings_pattern false c text
  rw [h] at hhead
  -- the delimiter is taken along with a class, and passed over without one
  cases hclass : takeClass text with
  | none =>
      rw [foundFrom_of_takeClass_eq_none hclass]
      rw [hclass] at hhead
      unfold foundFrom
      rw [Regex.captures_cons_of_none hhead]
  | some found =>
      obtain ⟨taken, rest⟩ := found
      rw [foundFrom_start hclass]
      rw [hclass] at hhead
      unfold foundFrom
      rw [Regex.captures_cons_of_some hhead (List.cons_ne_nil _ _)]
      rfl

/-! ## §3. One run. -/

/-- Inside a run nothing is found. -/
theorem foundFrom_append_of_not_delimiter {run : List Char}
    (h : ∀ c ∈ run, isDelimiter c = false) (rest : List Char) :
    foundFrom false (run ++ rest) = foundFrom false rest := by
  induction run with
  | nil => rfl
  | cons c run ih =>
      rw [List.cons_append, foundFrom_cons_of_not_delimiter (h c List.mem_cons_self)]
      exact ih fun d hd => h d (List.mem_cons_of_mem _ hd)

/-- What may follow a run: the end of the text, or a delimiter. -/
def EndsRun : List Char → Prop
  | [] => True
  | c :: _ => isDelimiter c = true

/-- A class at the front of a text lies within the first run. -/
theorem IsClass.prefix_append_iff {taken run rest : List Char} (h : IsClass taken)
    (hrest : EndsRun rest) : taken <+: run ++ rest ↔ taken <+: run := by
  constructor
  · intro hpre
    rcases List.prefix_or_prefix_of_prefix hpre (List.prefix_append run rest) with hrun | hrun
    · exact hrun
    · -- a class that is longer than the run would hold the delimiter behind it
      obtain ⟨more, rfl⟩ := hrun
      rw [List.prefix_append_right_inj] at hpre
      cases more with
      | nil =>
          rw [List.append_nil]
      | cons c more =>
          obtain ⟨behind, rfl⟩ := hpre
          have hc := h.isDelimiter_eq_false c (List.mem_append_right _ List.mem_cons_self)
          have hdelimiter : isDelimiter c = true := hrest
          rw [hc] at hdelimiter
          exact absurd hdelimiter (by decide)
  · intro hpre
    exact hpre.trans (List.prefix_append run rest)

theorem isLongestPrefix_append_iff {taken run rest : List Char} (hrest : EndsRun rest) :
    IsLongestPrefix IsClass (run ++ rest) taken ↔ IsLongestPrefix IsClass run taken := by
  unfold IsLongestPrefix
  constructor
  · intro hgiven
    obtain ⟨hpre, hclass, hmax⟩ := hgiven
    refine ⟨(hclass.prefix_append_iff hrest).1 hpre, hclass, ?_⟩
    intro other hother hmem
    exact hmax other ((hmem.prefix_append_iff hrest).2 hother) hmem
  · intro hgiven
    obtain ⟨hpre, hclass, hmax⟩ := hgiven
    refine ⟨(hclass.prefix_append_iff hrest).2 hpre, hclass, ?_⟩
    intro other hother hmem
    exact hmax other ((hmem.prefix_append_iff hrest).1 hother) hmem

/-- **What follows a run has no influence on what is taken of it.** -/
theorem takeClass_append (run : List Char) {rest : List Char} (hrest : EndsRun rest) :
    takeClass (run ++ rest) =
      (takeClass run).map fun found => (found.1, found.2 ++ rest) := by
  ext ⟨taken, behind⟩
  rw [takeClass_eq_some_iff, Option.map_eq_some_iff, isLongestPrefix_append_iff hrest]
  constructor
  · intro hgiven
    obtain ⟨htext, hlongest⟩ := hgiven
    obtain ⟨left, rfl⟩ := hlongest.1
    rw [List.append_assoc, List.append_cancel_left_eq] at htext
    refine ⟨(taken, left), takeClass_eq_some_iff.2 ⟨rfl, hlongest⟩, ?_⟩
    rw [← htext]
  · intro hgiven
    obtain ⟨⟨taken', left⟩, hfound, heq⟩ := hgiven
    cases heq
    obtain ⟨rfl, hlongest⟩ := takeClass_eq_some_iff.1 hfound
    exact ⟨List.append_assoc _ _ _, hlongest⟩

/-- What is taken of a run. -/
def classOf (run : List Char) : Option (List Char) := (takeClass run).map Prod.fst

/-- **One run gives at most one class**, and the search goes on behind the run. -/
theorem foundFrom_run {run rest : List Char} (hrun : ∀ c ∈ run, isDelimiter c = false)
    (hrest : EndsRun rest) :
    foundFrom true (run ++ rest) = (classOf run).toList ++ foundFrom false rest := by
  have htake := takeClass_append run hrest
  unfold classOf
  cases hclass : takeClass run with
  | none =>
      rw [hclass] at htake
      rw [foundFrom_of_takeClass_eq_none htake, foundFrom_append_of_not_delimiter hrun]
      rfl
  | some found =>
      obtain ⟨taken, left⟩ := found
      rw [hclass] at htake
      have hleft : ∀ c ∈ left, isDelimiter c = false := by
        intro c hc
        refine hrun c ?_
        rw [(isClass_of_takeClass hclass).1]
        exact List.mem_append_right _ hc
      rw [foundFrom_start htake, foundFrom_append_of_not_delimiter hleft]
      rfl

/-! ## §4. All runs. -/

/-- **The search finds the classes of the pieces between the delimiters.** -/
theorem found_eq_filterMap (text : List Char) :
    found text = (text.splitOnP isDelimiter).filterMap classOf := by
  show foundFrom true text = _
  induction hn : text.length using Nat.strong_induction_on generalizing text with
  | _ n ih =>
    -- the first run, up to the first delimiter
    have hrun : ∀ c ∈ text.takeWhile (fun c => !isDelimiter c), isDelimiter c = false := by
      intro c hc
      have := List.all_eq_true.1 List.all_takeWhile c hc
      simpa using this
    have hsplit := List.takeWhile_append_dropWhile (p := fun c => !isDelimiter c) (l := text)
    generalize text.takeWhile (fun c => !isDelimiter c) = run at hrun hsplit
    cases hrest : text.dropWhile fun c => !isDelimiter c with
    | nil =>
        rw [hrest, List.append_nil] at hsplit
        subst hsplit
        have hone := foundFrom_run hrun (show EndsRun [] from trivial)
        rw [List.append_nil, foundFrom_nil, List.append_nil] at hone
        rw [hone, List.splitOnP_eq_singleton hrun]
        cases hclass : classOf run <;> simp [hclass]
    | cons c rest =>
        rw [hrest] at hsplit
        have hc : isDelimiter c = true := by
          have hhead := List.head?_dropWhile_not (fun c => !isDelimiter c) text
          rw [hrest] at hhead
          simpa using hhead
        have hlen : rest.length < n := by
          rw [← hn, ← hsplit, List.length_append, List.length_cons]
          omega
        rw [← hsplit, foundFrom_run hrun (show EndsRun (c :: rest) from hc), foundFrom_delimiter hc,
          ih _ hlen rest rfl, List.splitOnP_append_cons_of_forall_mem hrun c hc,
          List.filterMap_cons]
        cases classOf run <;> rfl

/-! ## §5. The classes by their definition. -/

/-- The longest text of a language with which a text begins, if there is any. -/
def longestPrefix? (isMember : List Char → Prop) [DecidablePred isMember]
    (text : List Char) : Option (List Char) :=
  text.inits.reverse.find? fun taken => decide (isMember taken)

theorem longestPrefix?_cons (isMember : List Char → Prop) [DecidablePred isMember] (c : Char)
    (text : List Char) :
    longestPrefix? isMember (c :: text) =
      ((longestPrefix? (fun taken => isMember (c :: taken)) text).map (c :: ·)).or
        (if isMember [] then some [] else none) := by
  unfold longestPrefix?
  rw [List.inits_cons, List.reverse_cons, List.find?_append, ← List.map_reverse, List.find?_map]
  congr 1
  by_cases h : isMember [] <;> simp [h]

theorem isLongestPrefix_of_longestPrefix? (text : List Char) :
    ∀ (isMember : List Char → Prop) [DecidablePred isMember] (taken : List Char),
      longestPrefix? isMember text = some taken → IsLongestPrefix isMember text taken := by
  induction text with
  | nil =>
      intro isMember _ taken h
      have hmem := List.find?_some h
      have hinits := List.mem_of_find?_eq_some h
      rw [List.mem_reverse, List.mem_inits] at hinits
      refine ⟨hinits, of_decide_eq_true hmem, ?_⟩
      intro other hother _
      rw [List.prefix_nil] at hother
      rw [hother]
      exact Nat.zero_le _
  | cons c text ih =>
      intro isMember _ taken h
      rw [longestPrefix?_cons] at h
      cases hlong : longestPrefix? (fun taken => isMember (c :: taken)) text with
      | some longest =>
          rw [hlong] at h
          cases h
          obtain ⟨hpre, hmem, hmax⟩ := ih _ _ hlong
          refine ⟨(List.prefix_cons_inj c).2 hpre, hmem, ?_⟩
          intro other hother hmem'
          cases other with
          | nil => exact Nat.zero_le _
          | cons d other =>
              obtain ⟨rfl, htail⟩ := List.cons_prefix_cons.1 hother
              exact Nat.succ_le_succ (hmax other htail hmem')
      | none =>
          rw [hlong] at h
          by_cases hempty : isMember []
          · simp only [Option.map_none, Option.none_or, hempty, if_true] at h
            cases h
            refine ⟨List.nil_prefix, hempty, ?_⟩
            intro other hother hmem'
            cases other with
            | nil => exact Nat.le_refl _
            | cons d other =>
                obtain ⟨rfl, htail⟩ := List.cons_prefix_cons.1 hother
                have hnone := List.find?_eq_none.1 hlong other
                  (List.mem_reverse.2 ((List.mem_inits _ _).2 htail))
                exact absurd (decide_eq_true hmem') hnone
          · simp [hempty] at h

theorem longestPrefix?_eq_some_iff {isMember : List Char → Prop} [DecidablePred isMember]
    {text taken : List Char} :
    longestPrefix? isMember text = some taken ↔ IsLongestPrefix isMember text taken := by
  constructor
  · exact isLongestPrefix_of_longestPrefix? text isMember taken
  · intro h
    cases hlong : longestPrefix? isMember text with
    | none =>
        have hnone := List.find?_eq_none.1 hlong taken
          (List.mem_reverse.2 ((List.mem_inits _ _).2 h.1))
        exact absurd (decide_eq_true h.2.1) hnone
    | some longest =>
        rw [h.unique (isLongestPrefix_of_longestPrefix? text isMember longest hlong)]

/-- What is taken of a run is the longest class at its front. -/
theorem classOf_eq (run : List Char) : classOf run = longestPrefix? IsClass run := by
  ext taken
  unfold classOf
  rw [longestPrefix?_eq_some_iff, Option.map_eq_some_iff]
  constructor
  · intro hgiven
    obtain ⟨⟨taken', rest⟩, hfound, rfl⟩ := hgiven
    exact isLongestPrefix_of_takeClass hfound
  · intro h
    obtain ⟨rest, hrest⟩ := h.1
    exact ⟨(taken, rest), takeClass_eq_some_iff.2 ⟨hrest.symm, h⟩, rfl⟩

/-- The maximal runs of characters that are no delimiters. -/
def runs (text : List Char) : List (List Char) :=
  (text.splitOnP isDelimiter).filter fun run => run ≠ []

/-- **The classes of a text by their definition**: of each run the longest class at
its front, each once. -/
def mentioned (text : String) : List String :=
  (((runs text.toList).filterMap (longestPrefix? IsClass)).map String.ofList).eraseDups

/-- **The search with the pattern finds exactly the classes of the runs.** -/
theorem classes_eq_mentioned (text : String) : classes text = mentioned text := by
  unfold classes mentioned runs
  rw [found_eq_filterMap, List.filterMap_filter]
  congr 2
  refine List.filterMap_congr fun run _ => ?_
  rw [classOf_eq]
  by_cases hrun : run = []
  · subst hrun
    rfl
  · simp [hrun]

end FluidClamp.Markup
