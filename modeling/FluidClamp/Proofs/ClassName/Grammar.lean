/-
  FluidClamp.Proofs.ClassName.Grammar
  ───────────────────────────────────
  **WHICH TEXTS ARE CLASSES, AND HOW THEY ARE SPLIT.**

  A class is of one of two forms, and its last character says of which:

      fluid-<utility>-[<raw>]     whatever stands in the brackets (`Brackets`)
      fluid-<utility>-<name>      not ending in `]`, by its longest reading

  The first is cut at the first `-[`, which is the one behind the utility, for no
  utility has a bracket in its name.  Hence `raw` may hold further `-[` and `]`, and
  a text has one utility at most that it is a class of.  Every other text is none.
-/
import FluidClamp.Proofs.ClassName.Splits
import FluidClamp.Proofs.Text.Cut

namespace FluidClamp.ClassName

/-! ## §1. Classes that hold their shorthand. -/

/-- The text is a class of the utility with something in brackets. -/
structure Brackets (text : String) (utility : Utility) (raw : String) : Prop where
  mem : utility ∈ Utility.table
  text_eq : text = start ++ utility.name ++ "-[" ++ raw ++ "]"

/-- The utility of a name in the table is found. -/
theorem find?_name {utility : Utility} (h : utility ∈ Utility.table) :
    Utility.find? utility.name = some utility := by
  have hfound : (Utility.find? utility.name).isSome = true :=
    List.find?_isSome.2 ⟨utility, h, decide_eq_true rfl⟩
  obtain ⟨other, hother⟩ := Option.isSome_iff_exists.1 hfound
  have hname : other.name = utility.name := by
    simpa using List.find?_some hother
  rw [hother, Utility.eq_of_name (List.mem_of_find?_eq_some hother) h hname]

theorem Brackets.toList_eq {text raw : String} {utility : Utility} (h : Brackets text utility raw) :
    text.toList =
      start.toList ++ ((utility.name.toList ++ ['-', '['] ++ raw.toList) ++ [']']) := by
  rw [h.text_eq]
  simp

/-- **What stands in brackets is read whole**, whatever it is. -/
theorem Brackets.parse?_eq {text raw : String} {utility : Utility}
    (h : Brackets text utility raw) :
    parse? text = some ⟨text, utility, .arbitrary (unfold raw.toList)⟩ := by
  have hname : '[' ∉ utility.name.toList := by
    have htable : ∀ utility ∈ Utility.table, '[' ∉ utility.name.toList := by decide +kernel
    exact htable utility h.mem
  -- so the text is cut where the name ends
  have hdash : '[' ∉ ['-'] := by decide
  have hcut : cutAt? ['-', '['] (utility.name.toList ++ ['-', '['] ++ raw.toList) =
      some (utility.name.toList, raw.toList) :=
    cutAt?_append hdash hname raw.toList
  have hbody : arbitrary? (utility.name.toList ++ ['-', '['] ++ raw.toList) =
      some (utility, .arbitrary (unfold raw.toList)) := by
    unfold arbitrary?
    rw [hcut]
    simp only [String.ofList_toList, find?_name h.mem, Option.map_some]
  unfold parse?
  rw [h.toList_eq, after?_append]
  simp only [List.getLast?_concat, if_true, List.dropLast_concat, hbody, Option.map_some]

/-- A text has one utility and one content of brackets at most. -/
theorem Brackets.unique {text raw raw' : String} {utility utility' : Utility}
    (h : Brackets text utility raw) (h' : Brackets text utility' raw') :
    utility = utility' ∧ raw = raw' := by
  -- both are how the text is read
  have hparse := Option.some.inj (h.parse?_eq.symm.trans h'.parse?_eq)
  obtain rfl := congrArg ClassName.utility hparse
  refine ⟨rfl, ?_⟩
  have htext := List.append_cancel_left (h.toList_eq.symm.trans h'.toList_eq)
  exact String.toList_inj.1 (List.append_cancel_left (List.append_cancel_right htext))

/-! ## §2. The two forms. -/

/-- A class is of the first form exactly if that is how it is read. -/
theorem parse?_eq_arbitrary_iff {text value : String} {utility : Utility} :
    parse? text = some ⟨text, utility, .arbitrary value⟩ ↔
      ∃ raw, Brackets text utility raw ∧ value = unfold raw.toList := by
  constructor
  · intro h
    by_cases hlast : text.toList.getLast? = some ']'
    · obtain ⟨raw, hvalue, htext⟩ := exists_raw_of_parse? hlast h
      refine ⟨String.ofList raw, ⟨utility_mem_table h, ?_⟩, ?_⟩
      · apply String.toList_inj.1
        rw [htext]
        simp
      · rw [String.toList_ofList]
        exact ClassValue.arbitrary.inj hvalue
    · -- without the bracket at the end it would have been read as a name
      obtain ⟨name, -, hvalue, -⟩ := (parse?_eq_some_iff_splitsLongest hlast).1 h
      exact nomatch hvalue
  · rintro ⟨raw, hbrackets, rfl⟩
    exact hbrackets.parse?_eq

/-- And of the second. -/
theorem parse?_eq_named_iff {text name : String} {utility : Utility} :
    parse? text = some ⟨text, utility, .named name⟩ ↔
      text.toList.getLast? ≠ some ']' ∧ SplitsLongest text utility name := by
  constructor
  · intro h
    have hlast : text.toList.getLast? ≠ some ']' := by
      intro hlast
      obtain ⟨raw, hvalue, -⟩ := exists_raw_of_parse? hlast h
      exact nomatch hvalue
    obtain ⟨other, -, hvalue, hsplit⟩ := (parse?_eq_some_iff_splitsLongest hlast).1 h
    obtain rfl := ClassValue.named.inj hvalue
    exact ⟨hlast, hsplit⟩
  · rintro ⟨hlast, hsplit⟩
    exact (parse?_eq_some_iff_splitsLongest hlast).2 ⟨name, rfl, rfl, hsplit⟩

theorem text_of_parse? {text : String} {className : ClassName} (h : parse? text = some className) :
    className.text = text := by
  unfold parse? at h
  split at h
  · exact nomatch h
  · obtain ⟨found, -, rfl⟩ := Option.map_eq_some_iff.1 h
    rfl

/-- A text that has some reading has a longest one. -/
theorem parse?_ne_none_of_splits {text name : String} {utility : Utility}
    (hlast : text.toList.getLast? ≠ some ']') (h : Splits text utility name) :
    parse? text ≠ none := by
  obtain ⟨body, hbody⟩ : ∃ body, text.toList = start.toList ++ body := ⟨_, h.body_eq⟩
  intro hnone
  rw [parse?_of_getLast?_ne hbody hlast] at hnone
  -- the search that finds nothing has no reading to find
  have hbest := isBest_longest body Utility.table
  change IsBest body Utility.table (named? body) at hbest
  rw [Option.map_eq_none_iff.1 hnone] at hbest
  have hname := (splits_iff hbody h.mem).1 h
  exact absurd (hname.symm.trans (hbest utility h.mem)) (Option.some_ne_none _)

/-- **A text is no class exactly if it has neither form.** -/
theorem parse?_eq_none_iff {text : String} :
    parse? text = none ↔
      (∀ utility raw, ¬ Brackets text utility raw) ∧
        (text.toList.getLast? ≠ some ']' → ∀ utility name, ¬ Splits text utility name) := by
  constructor
  · intro hnone
    constructor
    · intro utility raw hbrackets
      rw [hbrackets.parse?_eq] at hnone
      exact nomatch hnone
    · intro hlast utility name hsplit
      exact parse?_ne_none_of_splits hlast hsplit hnone
  · rintro ⟨hbrackets, hsplits⟩
    cases hparse : parse? text with
    | none => rfl
    | some className =>
      -- a class has one form or the other, by the kind of its value
      obtain ⟨_, utility, value⟩ := className
      obtain rfl := text_of_parse? hparse
      cases value with
      | arbitrary value =>
        obtain ⟨raw, hraw, -⟩ := parse?_eq_arbitrary_iff.1 hparse
        exact absurd hraw (hbrackets utility raw)
      | named name =>
        obtain ⟨hlast, hsplit⟩ := parse?_eq_named_iff.1 hparse
        exact absurd hsplit.toSplits (hsplits hlast utility name)

theorem unfold_toList (raw : String) :
    unfold raw.toList = raw.map fun c => if c = '_' then ' ' else c := by
  apply String.toList_inj.1
  rw [String.toList_map]
  exact String.toList_ofList

/-! ## §3. The grammar. -/

/-- **A text is a class exactly in one of two forms.**  It is one of a utility with a
shorthand exactly if it reads `fluid-<utility>-[<raw>]`, and the shorthand is `raw` with
blanks for underscores; of a utility with a name exactly if it does not end in `]` and
this is its longest reading.  Either form determines its parts, any other text is no
class, and the utility of a class stands in the table just where its name is found. -/
theorem parse?_follows_grammar (text : String) :
    (∀ utility value, parse? text = some ⟨text, utility, .arbitrary value⟩ ↔
      ∃ raw, Brackets text utility raw ∧ value = raw.map fun c => if c = '_' then ' ' else c) ∧
    (∀ utility name, parse? text = some ⟨text, utility, .named name⟩ ↔
      text.toList.getLast? ≠ some ']' ∧ Splits text utility name ∧
        ∀ longer rest, Splits text longer rest → ¬ utility.name.length < longer.name.length) ∧
    (parse? text = none ↔
      (∀ utility raw, ¬ Brackets text utility raw) ∧
        (text.toList.getLast? ≠ some ']' → ∀ utility name, ¬ Splits text utility name)) ∧
    (∀ utility utility' raw raw', Brackets text utility raw → Brackets text utility' raw' →
      utility = utility' ∧ raw = raw') ∧
    (∀ className, parse? text = some className →
      className.text = text ∧ className.utility ∈ Utility.table ∧
        ∀ place, Utility.place? className.utility.name = some place ↔
          Utility.table[place]? = some className.utility) := by
  refine ⟨?_, ?_, parse?_eq_none_iff, ?_, ?_⟩
  · intro utility value
    simp only [← unfold_toList]
    exact parse?_eq_arbitrary_iff
  · intro utility name
    rw [parse?_eq_named_iff]
    constructor
    · rintro ⟨hlast, hsplit, hlongest⟩
      exact ⟨hlast, hsplit, fun longer rest hlonger => not_lt.2 (hlongest longer rest hlonger)⟩
    · rintro ⟨hlast, hsplit, hlongest⟩
      exact ⟨hlast, hsplit, fun longer rest hlonger => not_lt.1 (hlongest longer rest hlonger)⟩
  · intro utility utility' raw raw' h h'
    exact h.unique h'
  · intro className h
    exact ⟨text_of_parse? h, utility_mem_table h, fun place =>
      Utility.place?_eq_some_iff (utility_mem_table h)⟩

end FluidClamp.ClassName
