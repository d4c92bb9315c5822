/-
  FluidClamp.Proofs.Markup.Join
  ─────────────────────────────
  **THE CLASSES OF TEXTS THAT ARE JOINED.**

  A class holds no delimiter, and the search behind a delimiter is as it is at the
  start of a text.  So nothing is found, and nothing is lost, where two texts meet
  at a delimiter:

      found (left ++ mark :: right)  =  found left ++ found right

  The classes of a joined text are those of its pieces, whichever delimiter joins
  them and in whatever order they come.
-/
import FluidClamp.Proofs.Markup.Candidates

namespace FluidClamp.Markup

/-! ## §1. What is found where texts meet. -/

/-- **Searching respects joining at a delimiter.** -/
theorem found_append_cons {mark : Char} (hmark : isDelimiter mark = true)
    (left right : List Char) : found (left ++ mark :: right) = found left ++ found right := by
  rw [found_eq_filterMap, found_eq_filterMap, found_eq_filterMap,
    List.splitOnP_append_cons left right hmark, List.filterMap_append]

theorem found_nil : found [] = [] := foundFrom_nil true

/-- Many texts, joined one after the other. -/
theorem found_intercalate {mark : Char} (hmark : isDelimiter mark = true)
    (texts : List (List Char)) : found ([mark].intercalate texts) = texts.flatMap found := by
  induction texts with
  | nil => exact found_nil
  | cons text texts ih =>
      cases texts with
      | nil => rw [List.intercalate_singleton, List.flatMap_cons, List.flatMap_nil, List.append_nil]
      | cons next texts =>
          have hmeet : text ++ [mark] ++ [mark].intercalate (next :: texts) =
              text ++ mark :: [mark].intercalate (next :: texts) := by
            rw [List.append_assoc]
            rfl
          rw [List.intercalate_cons_cons, hmeet, found_append_cons hmark, ih]
          rfl

/-- In a text without anything but blanks nothing is found. -/
theorem found_of_isAllBlank {text : List Char} (h : isAllBlank text = true) : found text = [] := by
  induction text with
  | nil => exact found_nil
  | cons c text ih =>
      have hall : isBlank c = true ∧ isAllBlank text = true := by
        simpa [isAllBlank] using h
      have hmark : isDelimiter c = true := by
        unfold isDelimiter
        rw [hall.1, Bool.true_or]
      have hmeet := found_append_cons hmark [] text
      rw [List.nil_append, found_nil, List.nil_append] at hmeet
      rw [hmeet]
      exact ih hall.2

/-! ## §2. Classes. -/

theorem nodup_eraseDups (texts : List String) : texts.eraseDups.Nodup := by
  cases texts with
  | nil => exact List.nodup_nil
  | cons text texts =>
      rw [List.eraseDups_cons, List.nodup_cons]
      constructor
      · intro hmem
        have hkept := List.mem_eraseDups.1 hmem
        simp at hkept
      · exact nodup_eraseDups (texts.filter fun other => !other == text)
termination_by texts.length
decreasing_by exact Nat.lt_succ_of_le (List.length_filter_le _ _)

theorem mem_classes_iff {text className : String} :
    className ∈ classes text ↔ className.toList ∈ found text.toList := by
  unfold classes
  rw [List.mem_eraseDups, List.mem_map]
  constructor
  · intro hgiven
    obtain ⟨taken, htaken, rfl⟩ := hgiven
    rw [String.toList_ofList]
    exact htaken
  · intro hmem
    exact ⟨className.toList, hmem, String.ofList_toList⟩

/-- **A joined text mentions the classes of its pieces.** -/
theorem mem_classes_intercalate_iff {mark : Char} (hmark : isDelimiter mark = true)
    {texts : List String} {className : String} :
    className ∈ classes (String.intercalate (String.singleton mark) texts) ↔
      ∃ text ∈ texts, className ∈ classes text := by
  have hjoined : (String.intercalate (String.singleton mark) texts).toList =
      [mark].intercalate (texts.map String.toList) := by
    rw [String.toList_intercalate, String.toList_singleton]
  rw [mem_classes_iff, hjoined, found_intercalate hmark, List.mem_flatMap]
  constructor
  · intro hgiven
    obtain ⟨chars, hchars, hmem⟩ := hgiven
    obtain ⟨text, htext, rfl⟩ := List.mem_map.1 hchars
    exact ⟨text, htext, mem_classes_iff.2 hmem⟩
  · intro hgiven
    obtain ⟨text, htext, hmem⟩ := hgiven
    exact ⟨text.toList, List.mem_map_of_mem htext, mem_classes_iff.1 hmem⟩

theorem classes_of_isAllBlank {text : String} (h : isAllBlank text.toList = true) :
    classes text = [] := by
  unfold classes
  rw [found_of_isAllBlank h]
  rfl

end FluidClamp.Markup
