/-
  FluidClamp.Proofs.Shorthand.Faults
  ──────────────────────────────────
  **EVERYTHING THAT CAN BE WRONG WITH A SHORTHAND.**

  A shorthand passes a row of checks (`Check.order`), from the comma between its
  sides to the screens that must differ.  What each check finds is said on its
  own, over the input and the entries as they are given: a fault may be present
  beside any other, on either side, and none of them is hidden here because one
  before it was found.  Which one is reported is a second question, and its answer
  is the order alone (`FirstFault`).

  No definition below reads a text from left to right or builds a table.
-/
import FluidClamp.Failure
import FluidClamp.Proofs.Length.Language
import FluidClamp.Proofs.Screens.Entries
import FluidClamp.Proofs.Text.Words

namespace FluidClamp.Shorthand

open Screens (Names IsName lastWidth? reservedName)

/-! ## §1. What a shorthand says. -/

/-- The text of a side, in an input with one comma. -/
def IsSide (input : String) : Side → List Char → Prop
  | .start, text => ∃ other, input.toList = text ++ ',' :: other ∧ ',' ∉ text ∧ ',' ∉ other
  | .finish, text => ∃ other, input.toList = other ++ ',' :: text ∧ ',' ∉ other ∧ ',' ∉ text

/-- The words of a side. -/
def SideWords (input : String) (side : Side) (all : List String) : Prop :=
  ∃ text, IsSide input side text ∧ IsWords text (all.map String.toList)

/-- The text of a side's screen: the first of two words, or, beside a single word,
the default of the side. -/
def IsScreenText (entries : List (String × Option String)) (input : String) (side : Side)
    (screen : String) : Prop :=
  (∃ size, SideWords input side [screen, size]) ∨
    (∃ size, SideWords input side [size]) ∧ lastWidth? entries (reservedName side) = some screen

/-- The text of a side's size: the last of one word or two. -/
def IsSizeText (input : String) (side : Side) (size : String) : Prop :=
  SideWords input side [size] ∨ ∃ screen, SideWords input side [screen, size]

/-- **The width that a screen text means**: a length that is no name means itself,
and a name that is no length the length it names. -/
def Means (entries : List (String × Option String)) (screen : String)
    (width : Length Binary64) : Prop :=
  (IsLength screen width ∧ ¬ IsName entries screen) ∨
    (∀ l, ¬ IsLength screen l) ∧ ∃ text, Names entries screen text ∧ IsLength text width

/-- The screen of a side. -/
def IsScreen (entries : List (String × Option String)) (input : String) (side : Side)
    (width : Length Binary64) : Prop :=
  ∃ screen, IsScreenText entries input side screen ∧ Means entries screen width

/-- The size of a side. -/
def IsSize (input : String) (side : Side) (length : Length Binary64) : Prop :=
  ∃ size, IsSizeText input side size ∧ IsLength size length

/-- **The span that a shorthand describes.** -/
structure Describes (entries : List (String × Option String)) (input : String)
    (span : Span Binary64) : Prop where
  startScreen : IsScreen entries input .start span.start.screen
  startSize : IsSize input .start span.start.size
  finishScreen : IsScreen entries input .finish span.finish.screen
  finishSize : IsSize input .finish span.finish.size

/-- Two lengths with one exact number, whatever their units. -/
def SameNumber (a b : Length Binary64) : Prop :=
  ∃ q, a.value.toRat? = some q ∧ b.value.toRat? = some q

/-! ## §2. Checks and faults. -/

/-- What is checked of a shorthand. -/
inductive Check where
  /-- There is one comma. -/
  | anchors
  /-- The side has a size, and a screen or a default for it. -/
  | words (side : Side)
  /-- The screen means a width. -/
  | screen (side : Side)
  /-- The size is a length. -/
  | size (side : Side)
  /-- The width of the screen is positive. -/
  | positive (side : Side)
  | screenUnits
  | sizeUnits
  /-- Two sizes stand on two screens. -/
  | screensDiffer

/-- The checks of one side. -/
def Check.ofSide (side : Side) : List Check := [.words side, .screen side, .size side]

/-- The checks of the text. -/
def Check.ofText : List Check := .anchors :: (ofSide .start ++ ofSide .finish)

/-- The checks of the span that is described. -/
def Check.ofSpan : List Check :=
  [.positive .start, .positive .finish, .screenUnits, .sizeUnits, .screensDiffer]

/-- **The checks, in their order.** -/
def Check.order : List Check := ofText ++ ofSpan

/-- **What a check finds wrong**, and how that is reported. -/
inductive Fault (entries : List (String × Option String)) (input : String) :
    Check → Failure → Prop where
  | anchorCount :
      input.toList.count ',' ≠ 1 →
      Fault entries input .anchors
        (.shorthand (.anchorCount input (input.toList.count ',' + 1)))
  | wordCount {side : Side} {all : List String} :
      SideWords input side all → all.length ≠ 1 → all.length ≠ 2 →
      Fault entries input (.words side)
        (.shorthand (.wordCount (String.intercalate " " all) input all.length))
  | noDefaultScreen {side : Side} {size : String} :
      SideWords input side [size] → lastWidth? entries (reservedName side) = none →
      Fault entries input (.words side) (.shorthand .noDefaultScreen)
  | ambiguousScreen {side : Side} {screen : String} {width : Length Binary64} :
      IsScreenText entries input side screen → IsLength screen width → IsName entries screen →
      Fault entries input (.screen side) (.shorthand (.ambiguousScreen screen))
  | unknownScreen {side : Side} {screen : String} :
      IsScreenText entries input side screen → (∀ l, ¬ IsLength screen l) →
      ¬ IsName entries screen →
      Fault entries input (.screen side) (.shorthand (.unknownScreen screen))
  | badScreenWidth {side : Side} {screen width : String} :
      IsScreenText entries input side screen → (∀ l, ¬ IsLength screen l) →
      Names entries screen width → (∀ l, ¬ IsLength width l) →
      Fault entries input (.screen side) (.shorthand (.badScreenWidth screen width))
  | badSize {side : Side} {size : String} :
      IsSizeText input side size → (∀ l, ¬ IsLength size l) →
      Fault entries input (.size side) (.shorthand (.badSize size input))
  | screenNotPositive {side : Side} {width : Length Binary64} {q : Rat} :
      IsScreen entries input side width → width.value.toRat? = some q → q ≤ 0 →
      Fault entries input (.positive side) (.span (.screenNotPositive side width))
  | screenUnitsDiffer {start finish : Length Binary64} :
      IsScreen entries input .start start → IsScreen entries input .finish finish →
      start.unit ≠ finish.unit →
      Fault entries input .screenUnits (.span .screenUnitsDiffer)
  | sizeUnitsDiffer {start finish : Length Binary64} :
      IsSize input .start start → IsSize input .finish finish → start.unit ≠ finish.unit →
      Fault entries input .sizeUnits (.span .sizeUnitsDiffer)
  | screensEqual {span : Span Binary64} :
      Describes entries input span → SameNumber span.start.screen span.finish.screen →
      ¬ SameNumber span.start.size span.finish.size →
      Fault entries input .screensDiffer (.span .screensEqual)

/-- A check that finds nothing. -/
def Passes (entries : List (String × Option String)) (input : String) (check : Check) : Prop :=
  ∀ e, ¬ Fault entries input check e

/-- **The first fault** of a row of checks. -/
def FirstFault (entries : List (String × Option String)) (input : String) :
    List Check → Failure → Prop
  | [], _ => False
  | check :: rest, e =>
      Fault entries input check e ∨
        Passes entries input check ∧ FirstFault entries input rest e

variable {entries : List (String × Option String)} {input : String}

/-! ## §3. The first of a row. -/

theorem FirstFault.append {checks : List Check} {e : Failure}
    (h : FirstFault entries input checks e) (more : List Check) :
    FirstFault entries input (checks ++ more) e := by
  induction checks with
  | nil => exact h.elim
  | cons check checks ih =>
    rcases h with hfault | ⟨hpass, hrest⟩
    · exact .inl hfault
    · exact .inr ⟨hpass, ih hrest⟩

theorem FirstFault.of_passes {checks : List Check}
    (h : ∀ check ∈ checks, Passes entries input check) {more : List Check} {e : Failure}
    (hmore : FirstFault entries input more e) :
    FirstFault entries input (checks ++ more) e := by
  induction checks with
  | nil => exact hmore
  | cons check checks ih =>
    have hcheck := h check List.mem_cons_self
    exact .inr ⟨hcheck, ih fun other hother => h other (List.mem_cons_of_mem _ hother)⟩

/-- Where there is a first fault, not every check passes. -/
theorem FirstFault.not_forall_passes {checks : List Check} {e : Failure}
    (h : FirstFault entries input checks e) :
    ¬ ∀ check ∈ checks, Passes entries input check := by
  intro hall
  induction checks with
  | nil => exact h
  | cons check checks ih =>
    rcases h with hfault | ⟨-, hrest⟩
    · exact hall check List.mem_cons_self e hfault
    · exact ih hrest fun other hother => hall other (List.mem_cons_of_mem _ hother)

/-! ## §4. A shorthand says one thing. -/

/-- The input is cut in two where it has one comma. -/
theorem splitOn_comma_eq_pair_iff {text first second : List Char} :
    splitOn (fun c => decide (c = ',')) text = [first, second] ↔
      text = first ++ ',' :: second ∧ ',' ∉ first ∧ ',' ∉ second := by
  have hnot : ∀ piece : List Char,
      (∀ c ∈ piece, decide (c = ',') = false) ↔ ',' ∉ piece := by
    intro piece
    constructor
    · intro h hc
      exact absurd rfl (of_decide_eq_false (h ',' hc))
    · intro h c hc
      exact decide_eq_false fun heq => h (heq ▸ hc)
  rw [splitOn_eq_pair_iff, hnot, hnot]
  constructor
  · intro hgiven
    obtain ⟨mark, htext, hmark, hpieces⟩ := hgiven
    obtain rfl := of_decide_eq_true hmark
    exact ⟨htext, hpieces⟩
  · intro hgiven
    obtain ⟨htext, hpieces⟩ := hgiven
    exact ⟨',', htext, rfl, hpieces⟩

/-- A side is one of two pieces. -/
theorem isSide_iff {side : Side} {text : List Char} :
    IsSide input side text ↔
      ∃ other, splitOn (fun c => decide (c = ',')) input.toList =
        match side with
        | .start => [text, other]
        | .finish => [other, text] := by
  cases side with
  | start => exact exists_congr fun other => splitOn_comma_eq_pair_iff.symm
  | finish => exact exists_congr fun other => splitOn_comma_eq_pair_iff.symm

theorem IsSide.unique {side : Side} {a b : List Char} (ha : IsSide input side a)
    (hb : IsSide input side b) : a = b := by
  obtain ⟨other, ha⟩ := isSide_iff.1 ha
  obtain ⟨other', hb⟩ := isSide_iff.1 hb
  have heq := ha.symm.trans hb
  cases side with
  | start => exact (List.cons.inj heq).1
  | finish => exact (List.cons.inj (List.cons.inj heq).2).1

/-- The words of a side are the words of its text. -/
theorem sideWords_iff {side : Side} {text : List Char} (h : IsSide input side text)
    {all : List String} : SideWords input side all ↔ (words text).map String.ofList = all := by
  constructor
  · intro hgiven
    obtain ⟨text', htext', hall⟩ := hgiven
    rw [h.unique htext', hall.words_eq, List.map_map]
    exact List.map_id'' (fun _ => String.ofList_toList) all
  · rintro rfl
    refine ⟨text, h, ?_⟩
    rw [isWords_iff, List.map_map]
    exact (List.map_id'' (fun _ => String.toList_ofList) (words text)).symm

theorem SideWords.unique {side : Side} {a b : List String} (ha : SideWords input side a)
    (hb : SideWords input side b) : a = b := by
  obtain ⟨text, htext, -⟩ := id ha
  exact ((sideWords_iff htext).1 ha).symm.trans ((sideWords_iff htext).1 hb)

theorem IsScreenText.unique {side : Side} {a b : String}
    (ha : IsScreenText entries input side a) (hb : IsScreenText entries input side b) : a = b := by
  rcases ha with ⟨size, ha⟩ | ⟨⟨size, ha⟩, hdefault⟩
  · rcases hb with ⟨size', hb⟩ | ⟨⟨size', hb⟩, -⟩
    · exact (List.cons.inj (ha.unique hb)).1
    · exact nomatch ha.unique hb
  · rcases hb with ⟨size', hb⟩ | ⟨-, hdefault'⟩
    · exact nomatch ha.unique hb
    · exact Option.some.inj (hdefault.symm.trans hdefault')

theorem IsSizeText.unique {side : Side} {a b : String} (ha : IsSizeText input side a)
    (hb : IsSizeText input side b) : a = b := by
  rcases ha with ha | ⟨screen, ha⟩
  · rcases hb with hb | ⟨screen', hb⟩
    · exact (List.cons.inj (ha.unique hb)).1
    · exact nomatch ha.unique hb
  · rcases hb with hb | ⟨screen', hb⟩
    · exact nomatch ha.unique hb
    · exact (List.cons.inj (List.cons.inj (ha.unique hb)).2).1

theorem Means.unique {screen : String} {a b : Length Binary64} (ha : Means entries screen a)
    (hb : Means entries screen b) : a = b := by
  rcases ha with ⟨ha, -⟩ | ⟨hnot, text, hname, ha⟩
  · rcases hb with ⟨hb, -⟩ | ⟨hnot, -⟩
    · exact ha.unique hb
    · exact absurd ha (hnot a)
  · rcases hb with ⟨hb, -⟩ | ⟨-, text', hname', hb⟩
    · exact absurd hb (hnot b)
    · exact ha.unique (hname.unique hname' ▸ hb)

theorem IsScreen.unique {side : Side} {a b : Length Binary64}
    (ha : IsScreen entries input side a) (hb : IsScreen entries input side b) : a = b := by
  obtain ⟨screen, hscreen, ha⟩ := ha
  obtain ⟨screen', hscreen', hb⟩ := hb
  exact ha.unique (hscreen.unique hscreen' ▸ hb)

theorem IsSize.unique {side : Side} {a b : Length Binary64} (ha : IsSize input side a)
    (hb : IsSize input side b) : a = b := by
  obtain ⟨size, hsize, ha⟩ := ha
  obtain ⟨size', hsize', hb⟩ := hb
  exact ha.unique (hsize.unique hsize' ▸ hb)

/-- **A shorthand describes one span at most.** -/
theorem Describes.unique {a b : Span Binary64} (ha : Describes entries input a)
    (hb : Describes entries input b) : a = b := by
  obtain ⟨⟨_, _⟩, ⟨_, _⟩⟩ := a
  obtain ⟨⟨_, _⟩, ⟨_, _⟩⟩ := b
  obtain rfl := ha.startScreen.unique hb.startScreen
  obtain rfl := ha.startSize.unique hb.startSize
  obtain rfl := ha.finishScreen.unique hb.finishScreen
  obtain rfl := ha.finishSize.unique hb.finishSize
  rfl

end FluidClamp.Shorthand
