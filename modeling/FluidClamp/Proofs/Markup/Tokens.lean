/-
  FluidClamp.Proofs.Markup.Tokens
  ───────────────────────────────
  **WHICH CLASSES THE SEARCH CAN FIND.**

  The search knows the form of a class, and a class that has a rule need not have
  that form: a configured name may hold any character, and so may a name of a
  screen in a shorthand.  `IsScannable` says which classes have the form, by their
  value alone:

      fluid-<utility>-<name>             words of ASCII letters and digits, one dash
                                         between two of them
      fluid-<utility>-[<shorthand>]      no square bracket in the shorthand

  A class that stands in a text as a token of its own is mentioned exactly if it
  is scannable.  Of any other, at most the beginning is taken for a class.
-/
import FluidClamp.Proofs.ClassName.Splits
import FluidClamp.Proofs.Markup.Join
import FluidClamp.Proofs.RuleSet.StyleSheet

namespace FluidClamp.Markup

/-! ## §1. Words joined by single dashes. -/

/-- Words with one dash between two of them. -/
def IsName (text : List Char) : Prop := ∀ word ∈ text.splitOn '-', IsWord word

theorem isName_append_dash {left right : List Char} :
    IsName (left ++ '-' :: right) ↔ IsName left ∧ IsName right := by
  have hsplit : (left ++ '-' :: right).splitOn '-' = left.splitOn '-' ++ right.splitOn '-' :=
    List.splitOnP_append_cons left right (beq_self_eq_true '-')
  unfold IsName
  rw [hsplit, List.forall_mem_append]

theorem isName_of_isWord {word : List Char} (h : IsWord word) : IsName word := by
  have hnodash : ∀ c ∈ word, (c == '-') = false := by
    intro c hc
    rw [beq_eq_false_iff_ne]
    rintro rfl
    exact absurd (h.2 '-' hc) (by decide)
  have hsplit : word.splitOn '-' = [word] := List.splitOnP_eq_singleton hnodash
  unfold IsName
  rw [hsplit]
  exact List.forall_mem_singleton.2 h

theorem isName_joinWords {word : List Char} (hword : IsWord word) {words : List (List Char)}
    (hwords : ∀ w ∈ words, IsWord w) : IsName (joinWords word words) := by
  induction words generalizing word with
  | nil =>
    show IsName (word ++ [])
    rw [List.append_nil]
    exact isName_of_isWord hword
  | cons next words ih =>
    obtain ⟨hnext, hrest⟩ := List.forall_mem_cons.1 hwords
    show IsName (word ++ '-' :: joinWords next words)
    rw [isName_append_dash]
    exact ⟨isName_of_isWord hword, ih hnext hrest⟩

theorem intercalate_eq_joinWords (word : List Char) (words : List (List Char)) :
    ['-'].intercalate (word :: words) = joinWords word words := by
  induction words generalizing word with
  | nil =>
    rw [List.intercalate_singleton]
    exact (List.append_nil word).symm
  | cons next words ih =>
    rw [List.intercalate_cons_cons, ih, List.append_assoc]
    rfl

/-- **Such a text is its words, joined.** -/
theorem isName_iff {text : List Char} :
    IsName text ↔ ∃ word words, IsWord word ∧ (∀ w ∈ words, IsWord w) ∧
      text = joinWords word words := by
  constructor
  · intro h
    cases hwords : text.splitOn '-' with
    | nil => exact absurd hwords (List.splitOnP_ne_nil _ text)
    | cons word words =>
      unfold IsName at h
      rw [hwords] at h
      obtain ⟨hword, hrest⟩ := List.forall_mem_cons.1 h
      refine ⟨word, words, hword, hrest, ?_⟩
      rw [← intercalate_eq_joinWords, ← hwords, List.intercalate_splitOn]
  · rintro ⟨word, words, hword, hwords, rfl⟩
    exact isName_joinWords hword hwords

/-- The name of every utility is such a text. -/
theorem isName_utility {utility : Utility} (h : utility ∈ Utility.table) :
    IsName utility.name.toList := by
  have hall : (Utility.table.all fun utility => (utility.name.toList.splitOn '-').all fun word =>
      !word.isEmpty && word.all Char.isAlphanum) = true := by decide +kernel
  intro word hword
  have hone := List.all_eq_true.1 (List.all_eq_true.1 hall utility h) word hword
  simp only [Bool.and_eq_true, Bool.not_eq_true', List.isEmpty_eq_false_iff,
    List.all_eq_true] at hone
  exact hone

/-! ## §2. The form of a class, by its parts. -/

/-- Everything behind the start of a class is a name and a value in brackets, or a
name alone. -/
theorem isClass_start_append_iff {body : List Char} :
    IsClass (ClassName.start.toList ++ body) ↔
      ∃ name value, IsName name ∧ (∀ v ∈ value, IsValue v) ∧ body = name ++ valueText value := by
  constructor
  · rintro ⟨word, words, value, hword, hwords, hvalue, htext⟩
    exact ⟨joinWords word words, value, isName_joinWords hword hwords, hvalue,
      List.append_cancel_left htext⟩
  · rintro ⟨name, value, hname, hvalue, rfl⟩
    obtain ⟨word, words, hword, hwords, rfl⟩ := isName_iff.1 hname
    exact ⟨word, words, value, hword, hwords, hvalue, rfl⟩

theorem mem_of_isName {text : List Char} (h : IsName text) {c : Char} (hc : c ∈ text) :
    c.isAlphanum = true ∨ c = '-' := by
  obtain ⟨word, words, hword, hwords, rfl⟩ := isName_iff.1 h
  rcases List.mem_append.1 hc with hc | hc
  · exact .inl (hword.2 c hc)
  · obtain ⟨next, hnext, hc⟩ := List.mem_flatMap.1 hc
    rcases List.mem_cons.1 hc with rfl | hc
    · exact .inr rfl
    · exact .inl ((hwords next hnext).2 c hc)

theorem not_mem_of_isName {text : List Char} (h : IsName text) {bracket : Char}
    (hbracket : bracket = '[' ∨ bracket = ']') : bracket ∉ text := by
  intro hmem
  have hcases := mem_of_isName h hmem
  rcases hbracket with rfl | rfl
  · exact absurd hcases (by decide)
  · exact absurd hcases (by decide)

/-- A value holds no brackets but those around it. -/
theorem count_valueText_le {value : Option (List Char)} (hvalue : ∀ v ∈ value, IsValue v)
    {bracket : Char} (hbracket : bracket = '[' ∨ bracket = ']') :
    (valueText value).count bracket ≤ 1 := by
  cases value with
  | none => exact Nat.zero_le 1
  | some value =>
    obtain ⟨-, hchars⟩ := hvalue value rfl
    have hinside : value.count bracket = 0 := by
      rw [List.count_eq_zero]
      intro hmem
      rcases hbracket with rfl | rfl
      · exact (hchars '[' hmem).2.1 rfl
      · exact (hchars ']' hmem).2.2 rfl
    unfold valueText
    rcases hbracket with rfl | rfl <;> simp [hinside]

/-- Without a bracket at its end there is no value. -/
theorem isClass_iff_isName {body : List Char} (hlast : body.getLast? ≠ some ']') :
    IsClass (ClassName.start.toList ++ body) ↔ IsName body := by
  rw [isClass_start_append_iff]
  constructor
  · rintro ⟨name, value, hname, hvalue, rfl⟩
    cases value with
    | none =>
      show IsName (name ++ [])
      rw [List.append_nil]
      exact hname
    | some value =>
      exfalso
      apply hlast
      have hend : name ++ valueText (some value) = (name ++ '-' :: '[' :: value) ++ [']'] := by
        simp [valueText]
      rw [hend, List.getLast?_concat]
  · intro hname
    exact ⟨body, none, hname, fun v hv => absurd hv (Option.not_mem_none v),
      (List.append_nil body).symm⟩

/-- A class without a value in brackets holds no comma. -/
theorem IsClass.not_mem_comma {text : List Char} (h : IsClass text)
    (hlast : text.getLast? ≠ some ']') : ',' ∉ text := by
  obtain ⟨word, words, value, hword, hwords, -, rfl⟩ := h
  cases value with
  | none =>
    rw [valueText, List.append_nil]
    intro hmem
    rcases List.mem_append.1 hmem with hstart | hname
    · exact absurd hstart (by decide)
    · exact absurd (mem_of_isName (isName_joinWords hword hwords) hname) (by decide)
  | some value =>
    refine absurd ?_ hlast
    rw [valueText, ← List.cons_append, ← List.cons_append, ← List.append_assoc,
      ← List.append_assoc, List.getLast?_concat]

/-- A class with its shorthand in brackets has the form of one exactly if the
shorthand has no brackets of its own. -/
theorem isClass_bracketed_iff {name raw : List Char} (hname : IsName name) (hne : raw ≠ [])
    (hclean : ∀ c ∈ raw, isDelimiter c = false) :
    IsClass (ClassName.start.toList ++ (name ++ '-' :: '[' :: (raw ++ [']']))) ↔
      '[' ∉ raw ∧ ']' ∉ raw := by
  rw [isClass_start_append_iff]
  constructor
  · rintro ⟨words, value, hwords, hvalue, hbody⟩
    -- a class has at most one bracket of each kind, and those stand around the shorthand
    have hnot : ∀ bracket, bracket = '[' ∨ bracket = ']' → bracket ∉ raw := by
      intro bracket hbracket
      have hname := List.count_eq_zero.2 (not_mem_of_isName hname hbracket)
      have hwords := List.count_eq_zero.2 (not_mem_of_isName hwords hbracket)
      have hvalue := count_valueText_le hvalue hbracket
      have hcount := congrArg (List.count bracket) hbody
      rw [List.count_append, List.count_append, hname, hwords] at hcount
      rw [← List.count_eq_zero]
      have haround : raw.count bracket + 1 ≤ ('-' :: '[' :: (raw ++ [']'])).count bracket := by
        rcases hbracket with rfl | rfl <;> simp
      omega
    exact ⟨hnot '[' (.inl rfl), hnot ']' (.inr rfl)⟩
  · rintro ⟨hopen, hclose⟩
    refine ⟨name, some raw, hname, ?_, rfl⟩
    intro value hvalue
    obtain rfl := Option.some.inj hvalue
    refine ⟨hne, ?_⟩
    intro c hc
    refine ⟨hclean c hc, ?_, ?_⟩
    · rintro rfl
      exact hopen hc
    · rintro rfl
      exact hclose hc

/-! ## §3. Tokens of a text. -/

/-- The token stands in the text between delimiters or ends of the text. -/
def Stands (token content : List Char) : Prop :=
  ∃ before after, content = before ++ token ++ after ∧
    (∀ c ∈ before.getLast?, isDelimiter c = true) ∧ ∀ c ∈ after.head?, isDelimiter c = true

theorem stands_self (token : List Char) : Stands token token := by
  refine ⟨[], [], (List.append_nil token).symm, ?_, ?_⟩
  · intro c hc
    exact absurd hc (Option.not_mem_none c)
  · intro c hc
    exact absurd hc (Option.not_mem_none c)

theorem stands_between {left right : Char} (hleft : isDelimiter left = true)
    (hright : isDelimiter right = true) (before token after : List Char) :
    Stands token (before ++ left :: (token ++ right :: after)) := by
  refine ⟨before ++ [left], right :: after, ?_, ?_, ?_⟩
  · simp only [List.append_assoc, List.cons_append, List.nil_append]
  · intro c hc
    rw [List.getLast?_concat] at hc
    exact Option.some.inj hc ▸ hleft
  · intro c hc
    exact Option.some.inj hc ▸ hright

theorem isClass_of_mem_found {taken text : List Char} (h : taken ∈ found text) :
    IsClass taken := by
  rw [found_eq_filterMap] at h
  obtain ⟨run, -, hrun⟩ := List.mem_filterMap.1 h
  rw [classOf_eq, longestPrefix?_eq_some_iff] at hrun
  exact hrun.2.1

theorem found_of_isClass {token : List Char} (h : IsClass token) : found token = [token] := by
  have hlongest : IsLongestPrefix IsClass token token :=
    ⟨List.prefix_refl token, h, fun other hother _ => hother.length_le⟩
  have hclass : classOf token = some token := by
    rw [classOf_eq, longestPrefix?_eq_some_iff]
    exact hlongest
  rw [found_eq_filterMap, List.splitOnP_eq_singleton h.isDelimiter_eq_false,
    List.filterMap_cons_some hclass, List.filterMap_nil]

theorem classes_of_isClass {token : String} (h : IsClass token.toList) :
    classes token = [token] := by
  unfold classes
  rw [found_of_isClass h]
  simp [List.eraseDups_cons]

/-- What is found in a token is found in every text in which it stands. -/
theorem found_subset_of_stands {token content : List Char} (h : Stands token content) :
    found token ⊆ found content := by
  obtain ⟨before, after, rfl, hbefore, hafter⟩ := h
  have hright : found token ⊆ found (token ++ after) := by
    cases after with
    | nil =>
      rw [List.append_nil]
      exact List.Subset.refl _
    | cons mark after =>
      rw [found_append_cons (hafter mark rfl)]
      exact List.subset_append_left _ _
  rw [List.append_assoc]
  rcases List.eq_nil_or_concat' before with rfl | ⟨front, mark, rfl⟩
  · exact hright
  · have hmark : isDelimiter mark = true := by
      apply hbefore mark
      rw [List.getLast?_concat]
      rfl
    rw [List.append_assoc, List.singleton_append, found_append_cons hmark]
    exact List.subset_append_of_subset_right _ hright

/-- **A token is found exactly if it has the form of a class.** -/
theorem mem_found_iff_of_stands {token content : List Char} (h : Stands token content) :
    token ∈ found content ↔ IsClass token := by
  constructor
  · exact isClass_of_mem_found
  · intro hclass
    apply found_subset_of_stands h
    rw [found_of_isClass hclass]
    exact List.mem_singleton_self token

/-! ## §4. Classes that have a rule. -/

/-- The value of the class can be read off a text. -/
def IsScannable (className : ClassName) : Prop :=
  match className.value with
  | .named name => IsName name.toList
  | .arbitrary shorthand => '[' ∉ shorthand.toList ∧ ']' ∉ shorthand.toList

theorem mem_unfold_iff {raw : List Char} {c : Char} (hblank : c ≠ ' ') (hunder : c ≠ '_') :
    c ∈ (ClassName.unfold raw).toList ↔ c ∈ raw := by
  unfold ClassName.unfold
  rw [String.toList_ofList, List.mem_map]
  constructor
  · rintro ⟨d, hd, hcd⟩
    split at hcd
    · exact absurd hcd.symm hblank
    · rw [← hcd]
      exact hd
  · intro hc
    exact ⟨c, hc, if_neg hunder⟩

/-- The empty shorthand has no value. -/
theorem evaluate_empty_ne (config : Config) (css : String) : config.evaluate "" ≠ .ok css :=
  fun h => nomatch h

/-- A class with a rule has a shorthand with a value. -/
theorem exists_shorthand_of_resolve {config : Config} {text : String} {rule : Css.Rule}
    (h : config.resolve text = .ok (some rule)) {className : ClassName}
    (hparse : ClassName.parse? text = some className) :
    ∃ shorthand css, config.shorthandOf? className = some shorthand ∧
      config.evaluate shorthand = .ok css := by
  unfold Config.resolve at h
  rw [hparse] at h
  simp only at h
  split at h
  · exact nomatch h
  · next shorthand hshorthand =>
    split at h
    · exact nomatch h
    · next css hcss => exact ⟨shorthand, css, hshorthand, hcss⟩

/-- **The form of a class with a rule is decided by its value.** -/
theorem isClass_iff_isScannable {config : Config} {text : String} {rule : Css.Rule}
    (hrule : config.resolve text = .ok (some rule))
    (hclean : ∀ c ∈ text.toList, isDelimiter c = false) {className : ClassName}
    (hparse : ClassName.parse? text = some className) :
    IsClass text.toList ↔ IsScannable className := by
  have hname := isName_utility (ClassName.utility_mem_table hparse)
  unfold IsScannable
  by_cases hlast : text.toList.getLast? = some ']'
  · obtain ⟨raw, hvalue, htext⟩ := ClassName.exists_raw_of_parse? hlast hparse
    -- a shorthand with a value is not empty, and has its brackets where the class has them
    have hraw : raw ≠ [] := by
      rintro rfl
      obtain ⟨shorthand, css, hshorthand, hcss⟩ := exists_shorthand_of_resolve hrule hparse
      unfold Config.shorthandOf? at hshorthand
      rw [hvalue] at hshorthand
      obtain rfl := Option.some.inj hshorthand
      exact evaluate_empty_ne config css hcss
    have hcleanRaw : ∀ c ∈ raw, isDelimiter c = false := by
      intro c hc
      apply hclean
      rw [htext]
      simp [hc]
    rw [htext, isClass_bracketed_iff hname hraw hcleanRaw, hvalue]
    simp only
    rw [mem_unfold_iff (by decide) (by decide), mem_unfold_iff (by decide) (by decide)]
  · obtain ⟨name, -, hvalue, hsplit⟩ :=
      (ClassName.parse?_eq_some_iff_splitsLongest hlast).1 hparse
    have htext := hsplit.toSplits.body_eq
    -- the utility is a name already, so only the name in the class is left to have the form
    have hbody : (className.utility.name.toList ++ '-' :: name.toList).getLast? ≠ some ']' := by
      intro hend
      apply hlast
      rw [htext, List.getLast?_append, hend]
      rfl
    rw [htext, isClass_iff_isName hbody, isName_append_dash, hvalue]
    exact and_iff_right hname

/-- A token with a rule is mentioned exactly if it is scannable. -/
theorem mem_classes_iff_isScannable {config : Config} {text content : String}
    {rule : Css.Rule} (hrule : config.resolve text = .ok (some rule))
    (hclean : ∀ c ∈ text.toList, isDelimiter c = false)
    (hstands : Stands text.toList content.toList) {className : ClassName}
    (hparse : ClassName.parse? text = some className) :
    text ∈ classes content ↔ IsScannable className := by
  rw [mem_classes_iff, mem_found_iff_of_stands hstands,
    isClass_iff_isScannable hrule hclean hparse]

theorem not_isDelimiter_of_all {text : List Char}
    (h : (text.all fun c => !isDelimiter c) = true) : ∀ c ∈ text, isDelimiter c = false := by
  intro c hc
  have hone := List.all_eq_true.1 h c hc
  rwa [Bool.not_eq_true'] at hone

/-- The rule of a class of `gap` that goes from 32 to 64 pixels. -/
def gapRule (text : String) : Css.Rule :=
  ⟨"." ++ text, [⟨"gap", "clamp(32px, 6.25vw - 16px, 64px)"⟩]⟩

open ClassName in
theorem splitsLongest_gap {text name : String} (hne : name ≠ "") (hdash : '-' ∉ name.toList)
    (htext : text = start ++ "gap" ++ "-" ++ name) : SplitsLongest text Utility.gap name :=
  splitsLongest_iff.2 ⟨⟨Utility.gap_mem_table, hne, htext⟩, not_shadowed_of_not_mem hdash⟩

/-- **Which tokens with a rule the search finds.**  Of the classes that have a rule,
hold no delimiter and stand in a text as a token, the scannable ones are mentioned,
and those only; the style sheet of the text holds the rule of each. -/
theorem token_mentioned_iff_isScannable {config : Config} {text content : String}
    {rule : Css.Rule} (hrule : config.resolve text = .ok (some rule))
    (hclean : ∀ c ∈ text.toList, isDelimiter c = false)
    (hstands : Stands text.toList content.toList) :
    ∃ className, ClassName.parse? text = some className ∧
      (text ∈ classes content ↔ IsScannable className) ∧
      (IsScannable className → ∀ layout, ∃ before after,
        css config layout content = before ++ rule.render layout ++ after) := by
  obtain ⟨className, hparse⟩ := Config.exists_of_resolve hrule
  have hmentions := mem_classes_iff_isScannable hrule hclean hstands hparse
  refine ⟨className, hparse, hmentions, ?_⟩
  intro hscannable layout
  exact RuleSet.exists_css_ofClasses_eq (hmentions.2 hscannable) hrule layout

theorem token_mentioned_iff_isScannable_card :
    "fluid-gap-card" ∈ classes "<p class='fluid-gap-card'>" ∧
      ∃ before after,
        css (.withGap "card" "768px 32px,1280px 64px") .minified "<p class='fluid-gap-card'>" =
          before ++ (gapRule "fluid-gap-card").render .minified ++ after := by
  have hlast : "fluid-gap-card".toList.getLast? ≠ some ']' := by decide
  have hsplit : ClassName.SplitsLongest "fluid-gap-card" Utility.gap "card" :=
    splitsLongest_gap (by decide) (by decide) (by decide)
  have hrule : (Config.withGap "card" "768px 32px,1280px 64px").resolve "fluid-gap-card" =
      .ok (some (gapRule "fluid-gap-card")) := by
    rw [Config.resolve_of_names hlast hsplit (Config.names_withGap _ _)]
    decide +kernel
  have hclean := not_isDelimiter_of_all (by decide : ("fluid-gap-card".toList.all fun c => !isDelimiter c) = true)
  have hquote : isDelimiter '\'' = true := by decide
  have hstands : Stands "fluid-gap-card".toList "<p class='fluid-gap-card'>".toList :=
    stands_between hquote hquote "<p class=".toList _ ['>']
  obtain ⟨className, hparse, hmentions, hcss⟩ :=
    token_mentioned_iff_isScannable hrule hclean hstands
  have hscannable : IsScannable className := by
    obtain ⟨name, -, hvalue, hread⟩ :=
      (ClassName.parse?_eq_some_iff_splitsLongest hlast).1 hparse
    obtain ⟨-, rfl⟩ := hread.unique hsplit
    unfold IsScannable
    rw [hvalue]
    exact isName_of_isWord ⟨by decide, List.all_eq_true.1 (by decide)⟩
  exact ⟨hmentions.2 hscannable, hcss hscannable .minified⟩

/-- An underscore in a configured name hides its class: it has a rule and is not
found, even where it is the whole text. -/
theorem underscore_not_mentioned :
    (Config.withGap "my_card" "768px 32px,1280px 64px").resolve "fluid-gap-my_card" =
        .ok (some (gapRule "fluid-gap-my_card")) ∧
      "fluid-gap-my_card" ∉ classes "fluid-gap-my_card" := by
  have hlast : "fluid-gap-my_card".toList.getLast? ≠ some ']' := by decide
  have hsplit : ClassName.SplitsLongest "fluid-gap-my_card" Utility.gap "my_card" :=
    splitsLongest_gap (by decide) (by decide) (by decide)
  have hrule : (Config.withGap "my_card" "768px 32px,1280px 64px").resolve "fluid-gap-my_card" =
      .ok (some (gapRule "fluid-gap-my_card")) := by
    rw [Config.resolve_of_names hlast hsplit (Config.names_withGap _ _)]
    decide +kernel
  have hclean := not_isDelimiter_of_all
    (by decide : ("fluid-gap-my_card".toList.all fun c => !isDelimiter c) = true)
  have hstands := stands_self "fluid-gap-my_card".toList
  have hparse : ClassName.parse? "fluid-gap-my_card" =
      some ⟨"fluid-gap-my_card", Utility.gap, .named "my_card"⟩ :=
    (ClassName.parse?_eq_some_iff_splitsLongest hlast).2 ⟨"my_card", rfl, rfl, hsplit⟩
  refine ⟨hrule, ?_⟩
  rw [mem_classes_iff_isScannable hrule hclean hstands hparse]
  intro hscannable
  have hword := mem_of_isName hscannable (show '_' ∈ "my_card".toList by decide)
  exact absurd hword (by decide)

end FluidClamp.Markup
