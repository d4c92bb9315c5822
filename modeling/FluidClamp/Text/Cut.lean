/-
  FluidClamp.Text.Cut
  ───────────────────
  **CUTTING A TEXT AT A MARK.**

  `after? start text` is what follows `start` in a text that begins with it;
  `cutAt? mark text` is what stands before and after the first occurrence of a
  mark.  Both put together again what they took apart:

      after? start text = some rest          ↔   text = start ++ rest
      cutAt? mark text = some (left, right)  →   text = left ++ mark ++ right
-/

namespace FluidClamp

/-! ## §1. The start of a text. -/

/-- What follows `start` in a text that begins with it. -/
def after? : List Char → List Char → Option (List Char)
  | [], text => some text
  | c :: start, d :: text => if c = d then after? start text else none
  | _ :: _, [] => none

theorem after?_append (start rest : List Char) : after? start (start ++ rest) = some rest := by
  induction start with
  | nil => rfl
  | cons c start ih => simp [after?, ih]

theorem after?_eq_some_iff {start text rest : List Char} :
    after? start text = some rest ↔ text = start ++ rest := by
  refine ⟨fun h => ?_, fun h => h ▸ after?_append start rest⟩
  induction start generalizing text with
  | nil => simpa [after?] using h
  | cons c start ih =>
    cases text with
    | nil => simp [after?] at h
    | cons d text =>
      by_cases hc : c = d
      · simp only [after?, hc, if_true] at h
        rw [ih h, hc]; rfl
      · simp [after?, hc] at h

/-! ## §2. The first occurrence of a mark. -/

/-- What stands before and after the first occurrence of a mark. -/
def cutAt? (mark : List Char) : List Char → Option (List Char × List Char)
  | [] => (after? mark []).map fun rest => ([], rest)
  | c :: text =>
      match after? mark (c :: text) with
      | some rest => some ([], rest)
      | none => (cutAt? mark text).map fun (left, right) => (c :: left, right)

theorem eq_append_of_cutAt? {mark text left right : List Char}
    (h : cutAt? mark text = some (left, right)) : text = left ++ mark ++ right := by
  induction text generalizing left with
  | nil =>
    simp only [cutAt?, Option.map_eq_some_iff, Prod.mk.injEq] at h
    obtain ⟨rest, hr, rfl, rfl⟩ := h
    simpa using after?_eq_some_iff.1 hr
  | cons c text ih =>
    simp only [cutAt?] at h
    split at h
    · next rest hr =>
      simp only [Option.some.injEq, Prod.mk.injEq] at h
      obtain ⟨rfl, rfl⟩ := h
      simpa using after?_eq_some_iff.1 hr
    · simp only [Option.map_eq_some_iff, Prod.mk.injEq, Prod.exists] at h
      obtain ⟨l, r, hl, rfl, rfl⟩ := h
      simp [ih hl]

/-- A text without its blanks at both ends. -/
def trim (isBlank : Char → Bool) (text : List Char) : List Char :=
  ((text.dropWhile isBlank).reverse.dropWhile isBlank).reverse

end FluidClamp
