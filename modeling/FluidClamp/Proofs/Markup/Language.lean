/-
  FluidClamp.Proofs.Markup.Language
  ─────────────────────────────────
  **THE LANGUAGE OF CLASSES, AND READING ITS LONGEST TEXT.**

  `IsClass` says which texts have the form of a class, without a word on how one
  is found.  `takeClass` reads a class from left to right and never goes back:
  words as long as there are any, then a value in brackets if a whole one stands
  there.  What it takes is the longest class at the front of the text:

      takeClass text = some (taken, rest)
        ↔  text = taken ++ rest  ∧  `taken` is the longest class `text` begins with

  The words end in one place only, since a dash before a bracket is followed by
  no word, and a value ends in one place only, since it holds no bracket.
-/
import FluidClamp.Markup
import FluidClamp.Text.Cut

namespace FluidClamp.Markup

/-! ## §1. The language. -/

/-- ASCII letters and digits, at least one. -/
def IsWord (text : List Char) : Prop := text ≠ [] ∧ ∀ c ∈ text, c.isAlphanum = true

/-- Characters that are neither delimiters nor square brackets, at least one. -/
def IsValue (text : List Char) : Prop :=
  text ≠ [] ∧ ∀ c ∈ text, isDelimiter c = false ∧ c ≠ '[' ∧ c ≠ ']'

/-- A word and more words, each after a dash. -/
def joinWords (word : List Char) (words : List (List Char)) : List Char :=
  word ++ words.flatMap fun word => '-' :: word

/-- A value in brackets after a dash, if there is one. -/
def valueText : Option (List Char) → List Char
  | none => []
  | some value => '-' :: '[' :: (value ++ [']'])

/-- **The texts that have the form of a class.** -/
def IsClass (text : List Char) : Prop :=
  ∃ word words value, IsWord word ∧ (∀ w ∈ words, IsWord w) ∧ (∀ v ∈ value, IsValue v) ∧
    text = "fluid-".toList ++ (joinWords word words ++ valueText value)

/-- The longest text of a language with which a text begins. -/
def IsLongestPrefix (isMember : List Char → Prop) (text taken : List Char) : Prop :=
  taken <+: text ∧ isMember taken ∧
    ∀ other, other <+: text → isMember other → other.length ≤ taken.length

/-! ## §2. Reading from left to right. -/

/-- Whether a word begins here. -/
def startsWord : List Char → Bool
  | c :: _ => c.isAlphanum
  | [] => false

/-- Words joined by dashes: every dash is followed by a word. -/
def takeWords : List Char → List Char × List Char
  | [] => ([], [])
  | c :: text =>
      if c.isAlphanum || (c = '-' && startsWord text) then
        (c :: (takeWords text).1, (takeWords text).2)
      else ([], c :: text)

/-- A value and the bracket that closes it; what follows the bracket is the rest. -/
def takeValue? (body : List Char) : Option (List Char × List Char) :=
  match body.takeWhile isValueChar, body.dropWhile isValueChar with
  | c :: value, ']' :: rest => some (c :: value, rest)
  | _, _ => none

/-- A value in brackets after a dash, or nothing. -/
def takeBracketed (text : List Char) : List Char × List Char :=
  match (after? ['-', '['] text).bind takeValue? with
  | none => ([], text)
  | some (value, rest) => (valueText (some value), rest)

/-- **The class at the front of a text**, and the rest. -/
def takeClass (text : List Char) : Option (List Char × List Char) :=
  match after? ClassName.start.toList text with
  | none => none
  | some body =>
      if startsWord body then
        let words := takeWords body
        let value := takeBracketed words.2
        some (ClassName.start.toList ++ (words.1 ++ value.1), value.2)
      else none

/-! ## §3. Words. -/

theorem takeWords_append (text : List Char) :
    (takeWords text).1 ++ (takeWords text).2 = text := by
  induction text with
  | nil => rfl
  | cons c text ih =>
      simp only [takeWords]
      split
      · exact congrArg (c :: ·) ih
      · rfl

theorem takeWords_alphanum_append {word : List Char} (h : ∀ c ∈ word, c.isAlphanum = true)
    (rest : List Char) :
    takeWords (word ++ rest) = (word ++ (takeWords rest).1, (takeWords rest).2) := by
  induction word with
  | nil => rfl
  | cons c word ih =>
      have hc := h c List.mem_cons_self
      have hword := ih fun d hd => h d (List.mem_cons_of_mem _ hd)
      show takeWords (c :: (word ++ rest)) = _
      rw [takeWords, hc, Bool.true_or, if_pos rfl, hword]
      rfl

theorem startsWord_append {word : List Char} (h : IsWord word) (rest : List Char) :
    startsWord (word ++ rest) = true := by
  obtain ⟨hne, hall⟩ := h
  cases word with
  | nil => exact absurd rfl hne
  | cons c word => exact hall c List.mem_cons_self

/-- Joined words are taken whole, whatever follows. -/
theorem takeWords_joinWords_append {word : List Char} (hword : IsWord word)
    {words : List (List Char)} (hwords : ∀ w ∈ words, IsWord w) (rest : List Char) :
    takeWords (joinWords word words ++ rest) =
      (joinWords word words ++ (takeWords rest).1, (takeWords rest).2) := by
  unfold joinWords
  rw [List.append_assoc, takeWords_alphanum_append hword.2]
  suffices htail : takeWords ((words.flatMap fun word => '-' :: word) ++ rest) =
      ((words.flatMap fun word => '-' :: word) ++ (takeWords rest).1, (takeWords rest).2) by
    rw [htail, List.append_assoc]
  -- the first word is gone, and every other one stands behind its dash
  clear hword
  induction words with
  | nil => rfl
  | cons next words ih =>
      have hnext := hwords next List.mem_cons_self
      have hih := ih fun w hw => hwords w (List.mem_cons_of_mem _ hw)
      rw [List.flatMap_cons, List.append_assoc, List.cons_append, takeWords,
        startsWord_append hnext, if_pos (by decide), takeWords_alphanum_append hnext.2, hih]
      simp

/-- What is taken where a word begins are joined words. -/
theorem exists_joinWords {text : List Char} (h : startsWord text = true) :
    ∃ word words, IsWord word ∧ (∀ w ∈ words, IsWord w) ∧
      (takeWords text).1 = joinWords word words := by
  -- the first word may be empty for the induction, which runs through its characters
  suffices hgen : ∀ text : List Char, ∃ word words, (∀ c ∈ word, c.isAlphanum = true) ∧
      (startsWord text = true → word ≠ []) ∧ (∀ w ∈ words, IsWord w) ∧
      (takeWords text).1 = joinWords word words by
    obtain ⟨word, words, hword, hne, hwords, htaken⟩ := hgen text
    exact ⟨word, words, ⟨hne h, hword⟩, hwords, htaken⟩
  intro text
  induction text with
  | nil => exact ⟨[], [], by simp, by simp [startsWord], by simp, rfl⟩
  | cons c text ih =>
      obtain ⟨word, words, hword, hne, hwords, htaken⟩ := ih
      by_cases hc : c.isAlphanum = true
      · refine ⟨c :: word, words, ?_, by simp, hwords, ?_⟩
        · intro d hd
          rcases List.mem_cons.1 hd with rfl | hd
          · exact hc
          · exact hword d hd
        · rw [takeWords, hc, Bool.true_or, if_pos rfl, htaken]
          rfl
      · by_cases hdash : c = '-' ∧ startsWord text = true
        · -- the word that was first so far is the one behind this dash
          obtain ⟨rfl, hstart⟩ := hdash
          refine ⟨[], word :: words, by simp, fun h => absurd h hc, ?_, ?_⟩
          · intro w hw
            rcases List.mem_cons.1 hw with rfl | hw
            · exact ⟨hne hstart, hword⟩
            · exact hwords w hw
          · rw [takeWords, hstart, if_pos (by decide), htaken]
            rfl
        · refine ⟨[], [], by simp, fun h => absurd h hc, by simp, ?_⟩
          rw [takeWords, if_neg]
          · rfl
          · simpa [hc] using hdash

/-! ## §4. Values. -/

theorem isValueChar_iff {c : Char} :
    isValueChar c = true ↔ isDelimiter c = false ∧ c ≠ '[' ∧ c ≠ ']' := by
  simp [isValueChar, and_assoc]

/-- **A value ends in one place**, at the first bracket. -/
theorem takeValue?_eq_some_iff {body value rest : List Char} :
    takeValue? body = some (value, rest) ↔ body = value ++ ']' :: rest ∧ IsValue value := by
  unfold takeValue?
  constructor
  · intro h
    split at h
    · next c chars behind htake hdrop =>
      obtain ⟨rfl, rfl⟩ := Prod.mk.inj (Option.some.inj h)
      have hsplit := List.takeWhile_append_dropWhile (p := isValueChar) (l := body)
      rw [htake, hdrop] at hsplit
      refine ⟨hsplit.symm, List.cons_ne_nil c chars, fun d hd => isValueChar_iff.1 ?_⟩
      rw [← htake] at hd
      exact List.all_eq_true.1 List.all_takeWhile d hd
    · exact nomatch h
  · intro hgiven
    obtain ⟨rfl, hne, hall⟩ := hgiven
    have hchars : ∀ c ∈ value, isValueChar c = true := fun c hc => isValueChar_iff.2 (hall c hc)
    have hclose : ¬ isValueChar ']' = true := by decide
    have htake : (value ++ ']' :: rest).takeWhile isValueChar = value := by
      rw [List.takeWhile_append_of_pos hchars, List.takeWhile_cons_of_neg hclose, List.append_nil]
    have hdrop : (value ++ ']' :: rest).dropWhile isValueChar = ']' :: rest := by
      rw [List.dropWhile_append_of_pos hchars, List.dropWhile_cons_of_neg hclose]
    rw [htake, hdrop]
    cases value with
    | nil => exact absurd rfl hne
    | cons c value => rfl

/-- What is taken is a value in brackets, with the rest behind it, or nothing. -/
theorem takeBracketed_cases (text : List Char) :
    takeBracketed text = ([], text) ∨
      ∃ value rest, text = valueText (some value) ++ rest ∧ IsValue value ∧
        takeBracketed text = (valueText (some value), rest) := by
  unfold takeBracketed
  cases htaken : (after? ['-', '['] text).bind takeValue? with
  | none => exact .inl rfl
  | some taken =>
    obtain ⟨value, rest⟩ := taken
    obtain ⟨body, hbody, hvalue⟩ := Option.bind_eq_some_iff.1 htaken
    obtain ⟨rfl, hall⟩ := takeValue?_eq_some_iff.1 hvalue
    refine .inr ⟨value, rest, ?_, hall, rfl⟩
    rw [after?_eq_some_iff.1 hbody]
    simp [valueText]

theorem takeBracketed_append (text : List Char) :
    (takeBracketed text).1 ++ (takeBracketed text).2 = text := by
  rcases takeBracketed_cases text with hnone | ⟨value, rest, htext, -, hsome⟩
  · rw [hnone]
    rfl
  · rw [hsome]
    exact htext.symm

/-- A value in brackets is taken whole, whatever follows. -/
theorem takeBracketed_valueText_append {value : List Char} (h : IsValue value)
    (rest : List Char) :
    takeBracketed (valueText (some value) ++ rest) = (valueText (some value), rest) := by
  have htext : valueText (some value) ++ rest = ['-', '['] ++ (value ++ ']' :: rest) := by
    simp [valueText]
  have hvalue : takeValue? (value ++ ']' :: rest) = some (value, rest) :=
    takeValue?_eq_some_iff.2 ⟨rfl, h⟩
  unfold takeBracketed
  rw [htext, after?_append, Option.bind_some, hvalue]

/-- What is taken is a value in brackets or nothing. -/
theorem exists_valueText (text : List Char) :
    ∃ value, (∀ v ∈ value, IsValue v) ∧ (takeBracketed text).1 = valueText value := by
  rcases takeBracketed_cases text with hnone | ⟨value, rest, -, hvalue, hsome⟩
  · exact ⟨none, fun v hv => (nomatch hv), by rw [hnone]; rfl⟩
  · refine ⟨some value, ?_, by rw [hsome]⟩
    intro v hv
    rwa [← Option.some.inj hv]

/-! ## §5. The longest class. -/

theorem takeClass_start_append {body : List Char} (h : startsWord body = true) :
    takeClass (ClassName.start.toList ++ body) =
      some (ClassName.start.toList ++
          ((takeWords body).1 ++ (takeBracketed (takeWords body).2).1),
        (takeBracketed (takeWords body).2).2) := by
  unfold takeClass
  simp only [after?_append, h, if_true]

/-- What is taken is a class. -/
theorem isClass_of_takeClass {text taken rest : List Char}
    (h : takeClass text = some (taken, rest)) : text = taken ++ rest ∧ IsClass taken := by
  unfold takeClass at h
  split at h
  · simp at h
  · next body hbody =>
    split at h
    · next hstart =>
      simp only [Option.some.injEq, Prod.mk.injEq] at h
      obtain ⟨rfl, rfl⟩ := h
      obtain ⟨word, words, hword, hwords, htaken⟩ := exists_joinWords hstart
      obtain ⟨value, hvalue, hbracketed⟩ := exists_valueText (takeWords body).2
      refine ⟨?_, word, words, value, hword, hwords, hvalue, ?_⟩
      · rw [List.append_assoc, List.append_assoc, takeBracketed_append, takeWords_append]
        exact after?_eq_some_iff.1 hbody
      · rw [htaken, hbracketed]
        rfl
    · simp at h

/-- Where a class stands, one is taken that is at least as long. -/
theorem exists_takeClass {text : List Char} (h : IsClass text) (rest : List Char) :
    ∃ taken behind, takeClass (text ++ rest) = some (taken, behind) ∧
      text.length ≤ taken.length := by
  obtain ⟨word, words, value, hword, hwords, hvalue, rfl⟩ := h
  have hstart : startsWord (joinWords word words ++ (valueText value ++ rest)) = true := by
    unfold joinWords
    rw [List.append_assoc]
    exact startsWord_append hword _
  have hclass := takeClass_start_append hstart
  rw [takeWords_joinWords_append hword hwords] at hclass
  rw [List.append_assoc, List.append_assoc]
  refine ⟨_, _, hclass, ?_⟩
  cases value with
  | none =>
      -- without a value the words alone are long enough
      simp only [valueText, List.length_append, List.length_nil]
      have hlen : "fluid-".toList.length = ClassName.start.toList.length := rfl
      omega
  | some value =>
      -- no word follows the dash before the bracket, so the words end there
      have hend : takeWords (valueText (some value) ++ rest) =
          ([], valueText (some value) ++ rest) := rfl
      rw [hend, takeBracketed_valueText_append (hvalue value rfl)]
      simp only [List.append_nil, List.length_append]
      have hlen : "fluid-".toList.length = ClassName.start.toList.length := rfl
      omega

theorem isLongestPrefix_of_takeClass {text taken rest : List Char}
    (h : takeClass text = some (taken, rest)) : IsLongestPrefix IsClass text taken := by
  obtain ⟨htext, hclass⟩ := isClass_of_takeClass h
  refine ⟨⟨rest, htext.symm⟩, hclass, ?_⟩
  intro other hprefix hother
  obtain ⟨tail, rfl⟩ := hprefix
  obtain ⟨taken', rest', htaken', hlen⟩ := exists_takeClass hother tail
  rw [h] at htaken'
  cases htaken'
  exact hlen

/-- Two prefixes that are both the longest are the same. -/
theorem IsLongestPrefix.unique {isMember : List Char → Prop} {text taken taken' : List Char}
    (h : IsLongestPrefix isMember text taken) (h' : IsLongestPrefix isMember text taken') :
    taken = taken' := by
  have hle := h'.2.2 taken h.1 h.2.1
  have hge := h.2.2 taken' h'.1 h'.2.1
  exact (List.prefix_of_prefix_length_le h.1 h'.1 hle).eq_of_length (by omega)

/-- **The reader takes the longest class.** -/
theorem takeClass_eq_some_iff {text taken rest : List Char} :
    takeClass text = some (taken, rest) ↔
      text = taken ++ rest ∧ IsLongestPrefix IsClass text taken := by
  constructor
  · intro h
    exact ⟨(isClass_of_takeClass h).1, isLongestPrefix_of_takeClass h⟩
  · intro hgiven
    obtain ⟨htext, hlongest⟩ := hgiven
    -- something is taken, and it is the longest class too
    obtain ⟨taken', rest', htaken', -⟩ := exists_takeClass hlongest.2.1 rest
    rw [← htext] at htaken'
    obtain rfl := hlongest.unique (isLongestPrefix_of_takeClass htaken')
    have hrest := (isClass_of_takeClass htaken').1
    rw [htext] at hrest
    rw [htaken', List.append_cancel_left hrest]

instance : DecidablePred IsClass := fun text =>
  decidable_of_iff (takeClass text = some (text, [])) <| by
    constructor
    · intro h
      exact (isClass_of_takeClass h).2
    · intro h
      refine takeClass_eq_some_iff.2 ⟨(List.append_nil text).symm, List.prefix_rfl, h, ?_⟩
      -- no prefix of a text is longer than the text
      intro other hother _
      exact hother.length_le

/-! ## §6. A class holds no delimiter. -/

theorem isDelimiter_of_isAlphanum {c : Char} (h : c.isAlphanum = true) :
    isDelimiter c = false := by
  have hranges : (decide (65 ≤ c.val ∧ c.val ≤ 90) ||
      decide (97 ≤ c.val) && decide (c.val ≤ 122) ||
      decide (48 ≤ c.val) && decide (c.val ≤ 57)) = true := h
  simp only [Bool.or_eq_true, Bool.and_eq_true, decide_eq_true_eq,
    UInt32.le_iff_toNat_le] at hranges
  have hcodes : (65 ≤ c.toNat ∧ c.toNat ≤ 90 ∨ 97 ≤ c.toNat ∧ c.toNat ≤ 122) ∨
      48 ≤ c.toNat ∧ c.toNat ≤ 57 := hranges
  simp only [isDelimiter, isBlank, isQuote, Bool.or_eq_false_iff, Bool.and_eq_false_iff,
    decide_eq_false_iff_not]
  omega

theorem isDelimiter_of_mem_joinWords {word : List Char} (hword : IsWord word)
    {words : List (List Char)} (hwords : ∀ w ∈ words, IsWord w) :
    ∀ c ∈ joinWords word words, isDelimiter c = false := by
  intro c hc
  rcases List.mem_append.1 hc with hc | hc
  · exact isDelimiter_of_isAlphanum (hword.2 c hc)
  · obtain ⟨w, hw, hc⟩ := List.mem_flatMap.1 hc
    rcases List.mem_cons.1 hc with rfl | hc
    · decide
    · exact isDelimiter_of_isAlphanum ((hwords w hw).2 c hc)

theorem isDelimiter_of_mem_valueText {value : Option (List Char)}
    (hvalue : ∀ v ∈ value, IsValue v) : ∀ c ∈ valueText value, isDelimiter c = false := by
  intro c hc
  cases value with
  | none => simp [valueText] at hc
  | some value =>
      simp only [valueText, List.mem_cons, List.mem_append, List.not_mem_nil, or_false] at hc
      rcases hc with rfl | rfl | hc | rfl
      · decide
      · decide
      · exact ((hvalue value rfl).2 c hc).1
      · decide

/-- No character of a class is a delimiter. -/
theorem IsClass.isDelimiter_eq_false {text : List Char} (h : IsClass text) :
    ∀ c ∈ text, isDelimiter c = false := by
  obtain ⟨word, words, value, hword, hwords, hvalue, rfl⟩ := h
  intro c hc
  rcases List.mem_append.1 hc with hc | hc
  · have hstart : ("fluid-".toList.all fun c => !isDelimiter c) = true := by decide
    have hdelimiter := List.all_eq_true.1 hstart c hc
    rw [Bool.not_eq_true'] at hdelimiter
    exact hdelimiter
  · rcases List.mem_append.1 hc with hc | hc
    · exact isDelimiter_of_mem_joinWords hword hwords c hc
    · exact isDelimiter_of_mem_valueText hvalue c hc

/-- A class is not empty. -/
theorem IsClass.ne_nil {text : List Char} (h : IsClass text) : text ≠ [] := by
  obtain ⟨word, words, value, -, -, -, rfl⟩ := h
  simp

end FluidClamp.Markup
