/-
  FluidClamp.Proofs.Css.Escaping
  ──────────────────────────────
  **A CLASS NAME CAN BE READ OFF ITS SELECTOR.**

  `escape` writes every character of a class name by a code of its own, and
  `unescape` reads one code after the other:

      ,                 \2c and a blank     a code point, ended by the blank
      a name character  itself              that character
      any other         \ and itself        that character, no hexadecimal digit

  The blank ends the code of the comma whatever stands behind it, so each code is
  read alone and `unescape` undoes `escape`; only a line end behind a backslash is
  no character of a name (`unescape_escape_eq_iff`).  No code begins another, and
  none begins like the text behind a class, so a selector tells its class and what
  follows it, for names of any characters (`selector_rule_inj`).
-/
import FluidClamp.Proofs.Utility.Templates

namespace FluidClamp

namespace Css

/-! ## §1. Reading one code. -/

/-- Characters that end a line of a style sheet. -/
def isLineEnd (c : Char) : Bool := c = '\n' || c = '\r' || c.toNat = 12

/-- Of the blanks of a style sheet, all but two end a line. -/
theorem isLineEnd_eq (c : Char) :
    isLineEnd c = (isSheetBlank c && c ≠ ' ' && c ≠ '\t') := by
  by_cases hblank : c = ' '
  · subst hblank
    decide
  · by_cases htab : c = '\t'
    · subst htab
      decide
    · simp [isLineEnd, isSheetBlank, hblank, htab]

theorem isAlphanum_of_hexDigit? {c : Char} {n : Nat} (h : hexDigit? c = some n) :
    c.isAlphanum = true := by
  show (c.isUpper || c.isLower || c.isDigit) = true
  unfold hexDigit? at h
  split at h
  · next hdigit => rw [hdigit, Bool.or_true]
  · split at h
    · next hletter =>
      have hlast : 'f' ≤ 'z' := by decide
      have hlower : c.isLower = true :=
        Bool.and_eq_true_iff.2 ⟨decide_eq_true hletter.1,
          decide_eq_true (Char.le_trans hletter.2 hlast)⟩
      rw [hlower, Bool.or_true, Bool.true_or]
    · split at h
      · next hletter =>
        have hlast : 'F' ≤ 'Z' := by decide
        have hupper : c.isUpper = true :=
          decide_eq_true ⟨hletter.1, Char.le_trans hletter.2 hlast⟩
        rw [hupper, Bool.true_or, Bool.true_or]
      · cases h

/-- What gets a backslash is no digit of a code. -/
theorem hexDigit?_eq_none {c : Char} (h : isNameChar c = false) : hexDigit? c = none := by
  cases hdigit : hexDigit? c with
  | none => rfl
  | some n =>
    unfold isNameChar at h
    rw [isAlphanum_of_hexDigit? hdigit] at h
    exact nomatch h

/-- The code of a comma ends with its blank, also before another digit. -/
theorem unescape_comma (rest : List Char) :
    unescape ('\\' :: '2' :: 'c' :: ' ' :: rest) = (unescape rest).map (',' :: ·) := by
  have hfirst : hexDigit? '2' = some 2 := by decide
  have hsecond : hexDigit? 'c' = some 12 := by decide
  have hblank : hexDigit? ' ' = none := by decide
  have hcode : readCode 2 5 ('c' :: ' ' :: rest) = (44, ' ' :: rest) := by
    simp only [readCode, hsecond, hblank]
  rw [unescape]
  simp only [hfirst, hcode]
  rfl

theorem unescape_backslash {c : Char} (h : isNameChar c = false) (rest : List Char) :
    unescape ('\\' :: c :: rest) =
      if isLineEnd c then none else (unescape rest).map (c :: ·) := by
  rw [unescape]
  simp only [hexDigit?_eq_none h, isLineEnd_eq]

theorem unescape_nameChar {c : Char} (h : isNameChar c = true) (rest : List Char) :
    unescape (c :: rest) = (unescape rest).map (c :: ·) := by
  have hslash : c ≠ '\\' := by
    rintro rfl
    exact absurd h (by decide)
  rw [unescape, if_pos h]
  · intro heq
    exact absurd heq hslash
  · intro _ _ heq
    exact absurd heq hslash

theorem isNameChar_of_isLineEnd {c : Char} (h : isLineEnd c = true) :
    isNameChar c = false ∧ c ≠ ',' := by
  unfold isLineEnd at h
  simp only [Bool.or_eq_true, decide_eq_true_eq] at h
  have hcode : c = '\n' ∨ c = '\r' ∨ c = Char.ofNat 12 := by
    rcases h with (rfl | rfl) | h
    · exact .inl rfl
    · exact .inr (.inl rfl)
    · rw [← h, Char.ofNat_toNat]
      exact .inr (.inr rfl)
  rcases hcode with rfl | rfl | rfl <;> decide

/-- **Each code is read alone**: it gives its character, whatever stands behind it. -/
theorem unescape_escapeChar_append (c : Char) (rest : List Char) :
    unescape (escapeChar c ++ rest) =
      if isLineEnd c then none else (unescape rest).map (c :: ·) := by
  have hname : isNameChar c = true ∨ c = ',' → isLineEnd c = false := by
    intro h
    rw [Bool.eq_false_iff]
    intro hend
    obtain ⟨hnot, hcomma⟩ := isNameChar_of_isLineEnd hend
    rcases h with h | h
    · exact absurd h (Bool.eq_false_iff.1 hnot)
    · exact hcomma h
  unfold escapeChar
  split
  · next hcomma =>
    subst hcomma
    exact unescape_comma rest
  · split
    · next hchar =>
      rw [hname (.inl hchar)]
      exact unescape_nameChar hchar rest
    · next hchar => exact unescape_backslash (Bool.eq_false_iff.2 hchar) rest

/-! ## §2. Reading a name. -/

/-- **Reading undoes writing**, for the names without line ends and for no other. -/
theorem unescape_escape_eq_iff (name : List Char) :
    unescape (escape name) = some name ↔ ∀ c ∈ name, isLineEnd c = false := by
  induction name with
  | nil =>
    have hnil : unescape (escape []) = some [] := by rw [escape, List.flatMap_nil, unescape]
    exact iff_of_true hnil fun c hc => nomatch hc
  | cons c name ih =>
    have hstep := unescape_escapeChar_append c (escape name)
    have hcons : escape (c :: name) = escapeChar c ++ escape name := List.flatMap_cons
    rw [hcons, hstep, List.forall_mem_cons, ← ih]
    cases hend : isLineEnd c with
    | true => simp
    | false =>
      simp only [Bool.false_eq_true, if_false, true_and, Option.map_eq_some_iff, List.cons.injEq,
        exists_eq_right]

/-- The blank of a comma's code is read with it, a blank of the name is not. -/
example : escape ", c,2".toList = "\\2c \\ c\\2c 2".toList := by decide

/-! ## §3. Codes do not begin one another. -/

/-- The character whose code is at the front of a text, and the rest. -/
def splitCode : List Char → Option (Char × List Char)
  | '\\' :: '2' :: 'c' :: ' ' :: rest => some (',', rest)
  | '\\' :: c :: rest => some (c, rest)
  | c :: rest => some (c, rest)
  | [] => none

theorem splitCode_escapeChar_append (c : Char) (rest : List Char) :
    splitCode (escapeChar c ++ rest) = some (c, rest) := by
  unfold escapeChar
  split
  · next hcomma =>
    subst hcomma
    rfl
  · split
    · next hchar =>
      have hslash : c ≠ '\\' := by
        rintro rfl
        exact absurd hchar (by decide)
      simp [splitCode, hslash]
    · next hchar =>
      have hdigit : c ≠ '2' := by
        rintro rfl
        exact absurd (by decide) hchar
      simp [splitCode, hdigit]

theorem escapeChar_ne_nil (c : Char) : escapeChar c ≠ [] := by
  unfold escapeChar
  split
  · exact List.cons_ne_nil _ _
  · split <;> exact List.cons_ne_nil _ _

/-- Codes begin with a backslash or a character of a name. -/
theorem head?_escapeChar (c : Char) :
    ∀ d ∈ (escapeChar c).head?, d = '\\' ∨ isNameChar d = true := by
  unfold escapeChar
  split
  · exact fun d hd => .inl (Option.some.inj hd).symm
  · split
    · next hchar => exact fun d hd => .inr (Option.some.inj hd ▸ hchar)
    · exact fun d hd => .inl (Option.some.inj hd).symm

/-- A text that begins like no code. -/
def EndsName (text : List Char) : Prop := ∀ c ∈ text.head?, c ≠ '\\' ∧ isNameChar c = false

theorem EndsName.ne_escapeChar_append {text : List Char} (h : EndsName text) (c : Char)
    (rest : List Char) : text ≠ escapeChar c ++ rest := by
  rintro rfl
  cases hcode : escapeChar c with
  | nil => exact escapeChar_ne_nil c hcode
  | cons d code =>
    rw [hcode] at h
    obtain ⟨hslash, hname⟩ := h d rfl
    rcases head?_escapeChar c d (by rw [hcode]; rfl) with heq | heq
    · exact hslash heq
    · rw [hname] at heq
      exact nomatch heq

/-- **What is written tells the name and what stands behind it.** -/
theorem escape_append_inj {name other text rest : List Char} (htext : EndsName text)
    (hrest : EndsName rest) (h : escape name ++ text = escape other ++ rest) :
    name = other ∧ text = rest := by
  -- on the first name: the codes at the front are of the same character
  induction name generalizing other with
  | nil =>
    cases other with
    | nil => exact ⟨rfl, h⟩
    | cons d other =>
      refine absurd h ?_
      rw [escape, escape, List.flatMap_cons, List.append_assoc]
      exact htext.ne_escapeChar_append d _
  | cons c name ih =>
    cases other with
    | nil =>
      refine absurd h.symm ?_
      rw [escape, escape, List.flatMap_cons, List.append_assoc]
      exact hrest.ne_escapeChar_append c _
    | cons d other =>
      rw [escape, escape, List.flatMap_cons, List.flatMap_cons, List.append_assoc,
        List.append_assoc] at h
      have hsplit := congrArg splitCode h
      rw [splitCode_escapeChar_append, splitCode_escapeChar_append] at hsplit
      obtain ⟨rfl, hbehind⟩ := Prod.mk.inj (Option.some.inj hsplit)
      obtain ⟨rfl, htexts⟩ := ih hbehind
      exact ⟨rfl, htexts⟩

end Css

/-! ## §4. Selectors. -/

namespace Utility

theorem endsName_selectorTail (body : UtilityBody) : Css.EndsName body.selectorTail.toList := by
  unfold Css.EndsName
  rcases body.selectorTail_cases with h | h <;> rw [h] <;> decide

/-- The selectors of two classes are the same exactly if the classes are, and both
utilities apply to the same elements. -/
theorem selector_rule_inj {utility other : Utility} {className otherName value otherValue : String} :
    (utility.rule className value).selector = (other.rule otherName otherValue).selector ↔
      className = otherName ∧ utility.body.selectorTail = other.body.selectorTail := by
  constructor
  · intro h
    have hlist := congrArg String.toList h
    simp only [rule, String.toList_append, String.toList_ofList, List.append_assoc,
      List.append_cancel_left_eq] at hlist
    obtain ⟨hname, htail⟩ := Css.escape_append_inj (endsName_selectorTail utility.body)
      (endsName_selectorTail other.body) hlist
    exact ⟨String.toList_inj.1 hname, String.toList_inj.1 htail⟩
  · rintro ⟨rfl, htail⟩
    simp only [rule, htail]

/-- **A selector tells its class.**  Reading an escaped class by the rules of style
sheets takes the whole text and gives the class back, exactly for the classes without
line ends; and two classes, of whatever characters and of whatever utilities, have the
same selector only if they are the same. -/
theorem selector_tells_class (className : String) :
    (Css.unescape (Css.escape className.toList) = some className.toList ↔
      ∀ c ∈ className.toList, Css.isLineEnd c = false) ∧
    ∀ (utility other : Utility) (otherName value otherValue : String),
      (utility.rule className value).selector = (other.rule otherName otherValue).selector ↔
        className = otherName ∧ utility.body.selectorTail = other.body.selectorTail :=
  ⟨Css.unescape_escape_eq_iff className.toList, fun _ _ _ _ _ => selector_rule_inj⟩

end Utility

end FluidClamp
