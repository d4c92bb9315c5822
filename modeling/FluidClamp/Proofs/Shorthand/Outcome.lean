/-
  FluidClamp.Proofs.Shorthand.Outcome
  ───────────────────────────────────
  **THE FIRST FAULT IS REPORTED, AND A FAULTLESS SHORTHAND HAS A VALUE.**

  Reading a shorthand and computing its value goes through many hands: the table
  of screens, the cut at the comma, the words of each side, the screen, the size,
  and the span they make.  Each hand is shown here to answer for its own checks:

      it fails     →  its first fault is the one it reports
      it succeeds  →  it returns what the shorthand describes

  Since what is described passes its checks, the answers go together in the order
  of the checks, and the whole evaluation reports the first fault of all.
-/
import FluidClamp.Proofs.Number.Order
import FluidClamp.Proofs.Shorthand.Faults

namespace FluidClamp.Shorthand

open Screens (Names IsName lastWidth? reservedName)

variable {entries : List (String × Option String)} {input : String}

/-! ## §1. What is described passes its checks. -/

theorem passes_words {side : Side} {screen : String}
    (h : IsScreenText entries input side screen) : Passes entries input (.words side) := by
  intro e hfault
  cases hfault with
  | wordCount hall hone htwo =>
    -- a side with a screen has one word or two
    rcases h with ⟨size, hwords⟩ | ⟨⟨size, hwords⟩, -⟩
    · exact htwo (by rw [hall.unique hwords]; rfl)
    · exact hone (by rw [hall.unique hwords]; rfl)
  | noDefaultScreen hone hdefault =>
    rcases h with ⟨size, hwords⟩ | ⟨-, hsome⟩
    · exact nomatch hone.unique hwords
    · rw [hdefault] at hsome
      exact nomatch hsome

theorem passes_screen {side : Side} {width : Length Binary64}
    (h : IsScreen entries input side width) : Passes entries input (.screen side) := by
  obtain ⟨screen, hscreen, hmeans⟩ := h
  intro e hfault
  cases hfault with
  | ambiguousScreen htext hlength hname =>
    rw [htext.unique hscreen] at hlength hname
    rcases hmeans with ⟨-, hnot⟩ | ⟨hnot, -⟩
    · exact hnot hname
    · exact hnot _ hlength
  | unknownScreen htext hnot hname =>
    rw [htext.unique hscreen] at hnot hname
    rcases hmeans with ⟨hlength, -⟩ | ⟨-, text, hnames, -⟩
    · exact hnot _ hlength
    · exact hname ⟨text, hnames⟩
  | badScreenWidth htext hnot hname hbad =>
    rw [htext.unique hscreen] at hnot hname
    rcases hmeans with ⟨hlength, -⟩ | ⟨-, text, hnames, hlength⟩
    · exact hnot _ hlength
    · rw [hname.unique hnames] at hbad
      exact hbad _ hlength

theorem passes_size {side : Side} {length : Length Binary64} (h : IsSize input side length) :
    Passes entries input (.size side) := by
  obtain ⟨size, hsize, hlength⟩ := h
  intro e hfault
  cases hfault with
  | badSize htext hnot =>
    rw [htext.unique hsize] at hnot
    exact hnot _ hlength

theorem passes_ofSide {side : Side} {width length : Length Binary64}
    (hscreen : IsScreen entries input side width) (hsize : IsSize input side length) :
    ∀ check ∈ Check.ofSide side, Passes entries input check := by
  have hwords : Passes entries input (.words side) := by
    obtain ⟨screen, htext, -⟩ := hscreen
    exact passes_words htext
  unfold Check.ofSide
  rw [List.forall_mem_cons, List.forall_mem_cons, List.forall_mem_singleton]
  exact ⟨hwords, passes_screen hscreen, passes_size hsize⟩

/-! ## §2. Screens and anchors. -/

/-- **A screen text** is resolved to the width that it means, or is at fault. -/
theorem resolve_screen {side : Side} {screen : String}
    (h : IsScreenText entries input side screen) :
    match (Screens.ofEntries entries).resolve screen with
    | .error e => Fault entries input (.screen side) (.shorthand e)
    | .ok width => Means entries screen width := by
  unfold Screens.resolve
  cases hparse : Length.parse? screen with
  | some width =>
    have hlength := (Length.parse?_eq_some_iff screen width).1 hparse
    by_cases hname : IsName entries screen
    · simp only [if_pos (Screens.contains_ofEntries_iff.2 hname)]
      exact .ambiguousScreen h hlength hname
    · simp only [if_neg (mt Screens.contains_ofEntries_iff.1 hname)]
      exact .inl ⟨hlength, hname⟩
  | none =>
    have hnot := (Length.parse?_eq_none_iff screen).1 hparse
    cases hget : (Screens.ofEntries entries).get? screen with
    | none => exact .unknownScreen h hnot (Screens.get?_ofEntries_eq_none_iff.1 hget)
    | some text =>
      have hname := Screens.get?_ofEntries_eq_some_iff.1 hget
      simp only
      cases htext : Length.parse? text with
      | none => exact .badScreenWidth h hnot hname ((Length.parse?_eq_none_iff text).1 htext)
      | some width =>
        exact .inr ⟨hnot, text, hname, (Length.parse?_eq_some_iff text width).1 htext⟩

/-- **An anchor** with its two texts. -/
theorem resolve_anchor {side : Side} {screen size : String}
    (hscreen : IsScreenText entries input side screen) (hsize : IsSizeText input side size) :
    match Anchor.resolve (Screens.ofEntries entries) input screen size with
    | .error e => FirstFault entries input (Check.ofSide side) (.shorthand e)
    | .ok anchor =>
        IsScreen entries input side anchor.screen ∧ IsSize input side anchor.size := by
  have hresolve := resolve_screen hscreen
  unfold Anchor.resolve
  cases hcase : (Screens.ofEntries entries).resolve screen with
  | error e =>
    rw [hcase] at hresolve
    exact .inr ⟨passes_words hscreen, .inl hresolve⟩
  | ok width =>
    rw [hcase] at hresolve
    have hwidth : IsScreen entries input side width := ⟨screen, hscreen, hresolve⟩
    simp only
    cases hparse : Length.parse? size with
    | none =>
      have hnot := (Length.parse?_eq_none_iff size).1 hparse
      exact .inr ⟨passes_words hscreen, .inr ⟨passes_screen hwidth, .inl (.badSize hsize hnot)⟩⟩
    | some length =>
      exact ⟨hwidth, size, hsize, (Length.parse?_eq_some_iff size length).1 hparse⟩

/-- **Reading one side.** -/
theorem parse_anchor (entries : List (String × Option String)) {side : Side} {text : List Char} (h : IsSide input side text) :
    match Anchor.parse (Screens.ofEntries entries) side input text with
    | .error e => FirstFault entries input (Check.ofSide side) (.shorthand e)
    | .ok anchor =>
        IsScreen entries input side anchor.screen ∧ IsSize input side anchor.size := by
  have hwords := (sideWords_iff h).2 rfl
  unfold Anchor.parse
  -- the words are generalized before they are counted, so that the fault keeps them whole
  generalize (words text).map String.ofList = all at hwords
  rcases all with _ | ⟨first, _ | ⟨second, _ | ⟨third, rest⟩⟩⟩
  · exact .inl (.wordCount hwords (by decide) (by decide))
  · have hsize : IsSizeText input side first := .inl hwords
    simp only
    rw [Screens.default?_ofEntries]
    cases hdefault : lastWidth? entries (reservedName side) with
    | none => exact .inl (.noDefaultScreen hwords hdefault)
    | some screen => exact resolve_anchor (.inr ⟨⟨first, hwords⟩, hdefault⟩) hsize
  · exact resolve_anchor (.inl ⟨second, hwords⟩) (.inr ⟨first, hwords⟩)
  · have hlength : (first :: second :: third :: rest).length = rest.length + 3 := rfl
    exact .inl (.wordCount hwords (by omega) (by omega))

/-! ## §3. The whole shorthand. -/

/-- There is one more piece than there are commas. -/
theorem length_splitOn_comma (text : List Char) :
    (splitOn (fun c => decide (c = ',')) text).length = text.count ',' + 1 :=
  length_splitOn _ text

theorem firstFault_anchorCount {count : Nat} (h : count = input.toList.count ',' + 1)
    (hne : count ≠ 2) :
    FirstFault entries input Check.ofText (.shorthand (.anchorCount input count)) := by
  subst h
  exact .inl (.anchorCount fun hone => hne (by rw [hone]))

theorem passes_anchors {side : Side} {text : List Char} (h : IsSide input side text) :
    Passes entries input .anchors := by
  obtain ⟨other, hcut⟩ := isSide_iff.1 h
  have hlength := length_splitOn_comma input.toList
  have hone : input.toList.count ',' = 1 := by
    rw [hcut] at hlength
    cases side with
    | start => exact (Nat.succ.inj hlength).symm
    | finish => exact (Nat.succ.inj hlength).symm
  intro e hfault
  cases hfault with
  | anchorCount hne => exact hne hone

/-- **Reading a shorthand** gives the span that it describes, or its first fault. -/
theorem parse_span (entries : List (String × Option String)) (input : String) :
    match Span.parse (Screens.ofEntries entries) input with
    | .error e => FirstFault entries input Check.ofText (.shorthand e)
    | .ok span => Describes entries input span := by
  have hlength := length_splitOn_comma input.toList
  unfold Span.parse
  generalize hcut : splitOn (fun c => decide (c = ',')) input.toList = anchors at hlength
  rcases anchors with _ | ⟨start, _ | ⟨finish, _ | ⟨third, rest⟩⟩⟩
  · exact firstFault_anchorCount hlength (show 0 ≠ 2 by decide)
  · exact firstFault_anchorCount hlength (show 1 ≠ 2 by decide)
  · have hstartSide : IsSide input .start start := isSide_iff.2 ⟨finish, hcut⟩
    have hfinishSide : IsSide input .finish finish := isSide_iff.2 ⟨start, hcut⟩
    have hanchors : Passes entries input .anchors := passes_anchors hstartSide
    have hstart := parse_anchor entries hstartSide
    have hfinish := parse_anchor entries hfinishSide
    simp only
    cases hfirst : Anchor.parse (Screens.ofEntries entries) .start input start with
    | error e =>
      rw [hfirst] at hstart
      exact .inr ⟨hanchors, hstart.append _⟩
    | ok first =>
      rw [hfirst] at hstart
      -- the first side is described, so it hides nothing of the second
      have hpass := passes_ofSide hstart.1 hstart.2
      simp only
      cases hsecond : Anchor.parse (Screens.ofEntries entries) .finish input finish with
      | error e =>
        rw [hsecond] at hfinish
        exact .inr ⟨hanchors, .of_passes hpass hfinish⟩
      | ok second =>
        rw [hsecond] at hfinish
        exact ⟨hstart.1, hstart.2, hfinish.1, hfinish.2⟩
  · have hmany : (start :: finish :: third :: rest).length = rest.length + 3 := rfl
    exact firstFault_anchorCount hlength (by omega)

/-! ## §4. The span. -/

theorem IsLength.exists_toRat? {text : String} {length : Length Binary64}
    (h : IsLength text length) : ∃ q, length.value.toRat? = some q := by
  obtain ⟨n, -, -, -, hfinite⟩ := h
  exact Binary64.exists_toRat?_of_isFinite hfinite

theorem IsScreen.exists_toRat? {side : Side} {width : Length Binary64}
    (h : IsScreen entries input side width) : ∃ q, width.value.toRat? = some q := by
  obtain ⟨screen, -, ⟨hlength, -⟩ | ⟨-, text, -, hlength⟩⟩ := h
  · exact IsLength.exists_toRat? hlength
  · exact IsLength.exists_toRat? hlength

theorem IsSize.exists_toRat? {side : Side} {length : Length Binary64}
    (h : IsSize input side length) : ∃ q, length.value.toRat? = some q := by
  obtain ⟨size, -, hlength⟩ := h
  exact IsLength.exists_toRat? hlength

/-- Comparing with zero finds the widths that are not positive. -/
theorem le_zero_iff {width : Length Binary64} {q : Rat} (h : width.value.toRat? = some q) :
    Scalar.le width.value (Scalar.ofNat 0 : Binary64) = true ↔ q ≤ 0 :=
  Binary64.le_iff h Binary64.toRat?_ofNat_zero

/-- Equal numbers are those with the same value. -/
theorem equal_iff_sameNumber {a b : Length Binary64} {p : Rat} (ha : a.value.toRat? = some p)
    {q : Rat} (hb : b.value.toRat? = some q) :
    Scalar.equal a.value b.value = true ↔ SameNumber a b := by
  have hequal : Scalar.equal a.value b.value = true ↔ p = q := Binary64.equal_iff ha hb
  rw [hequal]
  constructor
  · rintro rfl
    exact ⟨p, ha, hb⟩
  · intro hgiven
    obtain ⟨r, hra, hrb⟩ := hgiven
    exact (Option.some.inj (ha.symm.trans hra)).trans (Option.some.inj (hrb.symm.trans hb))

theorem passes_positive {side : Side} {width : Length Binary64}
    (h : IsScreen entries input side width) {q : Rat} (hq : width.value.toRat? = some q)
    (hpos : ¬ q ≤ 0) : Passes entries input (.positive side) := by
  intro e hfault
  cases hfault with
  | screenNotPositive hwidth hr hle =>
    rw [hwidth.unique h, hq] at hr
    exact hpos (Option.some.inj hr ▸ hle)

theorem passes_screenUnits {span : Span Binary64} (h : Describes entries input span)
    (hunits : span.start.screen.unit = span.finish.screen.unit) :
    Passes entries input .screenUnits := by
  intro e hfault
  cases hfault with
  | screenUnitsDiffer hstart hfinish hne =>
    rw [hstart.unique h.startScreen, hfinish.unique h.finishScreen] at hne
    exact hne hunits

theorem passes_sizeUnits {span : Span Binary64} (h : Describes entries input span)
    (hunits : span.start.size.unit = span.finish.size.unit) :
    Passes entries input .sizeUnits := by
  intro e hfault
  cases hfault with
  | sizeUnitsDiffer hstart hfinish hne =>
    rw [hstart.unique h.startSize, hfinish.unique h.finishSize] at hne
    exact hne hunits

theorem passes_screensDiffer {span : Span Binary64} (h : Describes entries input span)
    (hdiffer : ¬ (¬ SameNumber span.start.size span.finish.size ∧
      SameNumber span.start.screen span.finish.screen)) :
    Passes entries input .screensDiffer := by
  intro e hfault
  cases hfault with
  | screensEqual hdescribes hscreens hsizes =>
    rw [hdescribes.unique h] at hscreens hsizes
    exact hdiffer ⟨hsizes, hscreens⟩

/-- **The checks of a span** find its first fault. -/
theorem fault_span {span : Span Binary64} (h : Describes entries input span) :
    match span.fault? with
    | some e => FirstFault entries input Check.ofSpan (.span e)
    | none => ∀ check ∈ Check.ofSpan, Passes entries input check := by
  obtain ⟨F, hF⟩ := h.startScreen.exists_toRat?
  obtain ⟨T, hT⟩ := h.finishScreen.exists_toRat?
  obtain ⟨f, hf⟩ := h.startSize.exists_toRat?
  obtain ⟨t, ht⟩ := h.finishSize.exists_toRat?
  unfold Span.fault?
  simp only [le_zero_iff hF, le_zero_iff hT]
  -- the tests of `Span.fault?` stand in the order of the checks
  by_cases hFpos : F ≤ 0
  · rw [if_pos hFpos]
    exact .inl (.screenNotPositive h.startScreen hF hFpos)
  have hstart := passes_positive h.startScreen hF hFpos
  rw [if_neg hFpos]
  by_cases hTpos : T ≤ 0
  · rw [if_pos hTpos]
    exact .inr ⟨hstart, .inl (.screenNotPositive h.finishScreen hT hTpos)⟩
  have hfinish := passes_positive h.finishScreen hT hTpos
  rw [if_neg hTpos]
  by_cases hscreenUnits : span.start.screen.unit = span.finish.screen.unit
  case neg =>
    rw [if_pos hscreenUnits]
    exact .inr ⟨hstart, .inr ⟨hfinish,
      .inl (.screenUnitsDiffer h.startScreen h.finishScreen hscreenUnits)⟩⟩
  have hunits := passes_screenUnits h hscreenUnits
  rw [if_neg (not_not.2 hscreenUnits)]
  by_cases hsizeUnits : span.start.size.unit = span.finish.size.unit
  case neg =>
    rw [if_pos hsizeUnits]
    exact .inr ⟨hstart, .inr ⟨hfinish, .inr ⟨hunits,
      .inl (.sizeUnitsDiffer h.startSize h.finishSize hsizeUnits)⟩⟩⟩
  have hunits' := passes_sizeUnits h hsizeUnits
  rw [if_neg (not_not.2 hsizeUnits)]
  have hboth : (!Scalar.equal span.start.size.value span.finish.size.value &&
      Scalar.equal span.start.screen.value span.finish.screen.value) = true ↔
      ¬ SameNumber span.start.size span.finish.size ∧
        SameNumber span.start.screen span.finish.screen := by
    rw [Bool.and_eq_true, Bool.not_eq_true', ← Bool.not_eq_true, equal_iff_sameNumber hf ht,
      equal_iff_sameNumber hF hT]
  by_cases hequal : ¬ SameNumber span.start.size span.finish.size ∧
      SameNumber span.start.screen span.finish.screen
  · rw [if_pos (hboth.2 hequal)]
    exact .inr ⟨hstart, .inr ⟨hfinish, .inr ⟨hunits, .inr ⟨hunits',
      .inl (.screensEqual h hequal.2 hequal.1)⟩⟩⟩⟩
  · rw [if_neg (mt hboth.1 hequal)]
    unfold Check.ofSpan
    simp only [List.forall_mem_cons]
    exact ⟨hstart, hfinish, hunits, hunits', passes_screensDiffer h hequal, List.forall_mem_nil _⟩

/-! ## §5. The evaluation. -/

/-- A check finds one fault at most. -/
theorem Fault.unique {check : Check} {a b : Failure} (ha : Fault entries input check a)
    (hb : Fault entries input check b) : a = b := by
  cases ha with
  | anchorCount _ =>
    cases hb with
    | anchorCount _ => rfl
  | wordCount hall hone htwo =>
    cases hb with
    | wordCount hall' _ _ => rw [hall.unique hall']
    | noDefaultScreen hsize _ => exact absurd (by rw [hall.unique hsize]; rfl) hone
  | noDefaultScreen hsize _ =>
    cases hb with
    | wordCount hall hone _ => exact absurd (by rw [hall.unique hsize]; rfl) hone
    | noDefaultScreen _ _ => rfl
  | ambiguousScreen htext hlength _ =>
    cases hb with
    | ambiguousScreen htext' _ _ => rw [htext.unique htext']
    | unknownScreen htext' hnot _ => exact absurd (htext.unique htext' ▸ hlength) (hnot _)
    | badScreenWidth htext' hnot _ _ => exact absurd (htext.unique htext' ▸ hlength) (hnot _)
  | unknownScreen htext hnot hname =>
    cases hb with
    | ambiguousScreen htext' hlength _ => exact absurd (htext.unique htext' ▸ hlength) (hnot _)
    | unknownScreen htext' _ _ => rw [htext.unique htext']
    | badScreenWidth htext' _ hnames _ =>
      exact absurd (htext.unique htext' ▸ ⟨_, hnames⟩) hname
  | badScreenWidth htext hnot hnames _ =>
    cases hb with
    | ambiguousScreen htext' hlength _ => exact absurd (htext.unique htext' ▸ hlength) (hnot _)
    | unknownScreen htext' _ hname =>
      exact absurd (htext.unique htext' ▸ ⟨_, hnames⟩) hname
    | badScreenWidth htext' _ hnames' _ =>
      obtain rfl := htext.unique htext'
      rw [hnames.unique hnames']
  | badSize htext _ =>
    cases hb with
    | badSize htext' _ => rw [htext.unique htext']
  | screenNotPositive hwidth _ _ =>
    cases hb with
    | screenNotPositive hwidth' _ _ => rw [hwidth.unique hwidth']
  | screenUnitsDiffer _ _ _ =>
    cases hb with
    | screenUnitsDiffer _ _ _ => rfl
  | sizeUnitsDiffer _ _ _ =>
    cases hb with
    | sizeUnitsDiffer _ _ _ => rfl
  | screensEqual _ _ _ =>
    cases hb with
    | screensEqual _ _ _ => rfl

theorem FirstFault.unique {checks : List Check} {a b : Failure}
    (ha : FirstFault entries input checks a) (hb : FirstFault entries input checks b) :
    a = b := by
  induction checks with
  | nil => exact ha.elim
  | cons check checks ih =>
    rcases ha with ha | ⟨hpass, ha⟩
    · rcases hb with hb | ⟨hpass, -⟩
      · exact ha.unique hb
      · exact absurd ha (hpass a)
    · rcases hb with hb | ⟨-, hb⟩
      · exact absurd hb (hpass b)
      · exact ih ha hb

/-- A shorthand that describes a span passes the checks of the text. -/
theorem passes_ofText {span : Span Binary64} (h : Describes entries input span) :
    ∀ check ∈ Check.ofText, Passes entries input check := by
  have hanchors : Passes entries input .anchors := by
    obtain ⟨size, hsize | ⟨screen, hsize⟩, -⟩ := h.startSize
    · exact passes_anchors hsize.choose_spec.1
    · exact passes_anchors hsize.choose_spec.1
  unfold Check.ofText
  rw [List.forall_mem_cons, List.forall_mem_append]
  exact ⟨hanchors, passes_ofSide h.startScreen h.startSize,
    passes_ofSide h.finishScreen h.finishSize⟩

/-- The text of a span is found exactly where the span has no fault. -/
theorem css_span (root : Binary64) (span : Span Binary64) :
    match span.fault? with
    | some e => span.css root = .error e
    | none => ∃ css, span.css root = .ok css := by
  unfold Span.css Span.value
  cases span.fault? with
  | some e => rfl
  | none =>
    simp only
    split
    · exact ⟨_, rfl⟩
    · exact ⟨_, rfl⟩

/-- Reading alone accepts exactly the shorthands that describe a span. -/
theorem parse_eq_ok_iff (entries : List (String × Option String)) (input : String)
    (span : Span Binary64) :
    Span.parse (Screens.ofEntries entries) input = .ok span ↔ Describes entries input span := by
  have hparse := parse_span entries input
  constructor
  · intro hspan
    rw [hspan] at hparse
    exact hparse
  · intro h
    cases hspan : Span.parse (Screens.ofEntries entries) input with
    | error e =>
      rw [hspan] at hparse
      exact absurd (passes_ofText h) hparse.not_forall_passes
    | ok other =>
      rw [hspan] at hparse
      rw [hparse.unique h]

/-- **Evaluating a shorthand** gives the text of the span that it describes where
every check passes, and its first fault otherwise. -/
theorem evaluate_outcome (entries : List (String × Option String)) (root : Binary64)
    (input : String) :
    match (Screens.ofEntries entries).evaluate root input with
    | .error e => FirstFault entries input Check.order e
    | .ok css => (∀ check ∈ Check.order, Passes entries input check) ∧
        ∃ span, Describes entries input span ∧ span.css root = .ok css := by
  have hparse := parse_span entries input
  unfold Screens.evaluate
  cases hspan : Span.parse (Screens.ofEntries entries) input with
  | error e =>
    rw [hspan] at hparse
    exact hparse.append _
  | ok span =>
    rw [hspan] at hparse
    have hpass := passes_ofText hparse
    have hfault := fault_span hparse
    have hcss := css_span root span
    simp only
    cases hcase : span.fault? with
    | some e =>
      rw [hcase] at hfault hcss
      rw [hcss]
      exact .of_passes hpass hfault
    | none =>
      rw [hcase] at hfault hcss
      obtain ⟨css, hcss⟩ := hcss
      rw [hcss]
      exact ⟨List.forall_mem_append.2 ⟨hpass, hfault⟩, span, hparse, hcss⟩

/-- **A shorthand fails with its first fault, and with nothing else.**  Over every
list of entries, for every root and every text: reading gives a span exactly where
the shorthand describes it, evaluation ends in an error exactly where that is the
first fault in the order of the checks, and where every check passes it ends in
the text of the span that is described. -/
theorem evaluate_reports_first_fault (entries : List (String × Option String))
    (root : Binary64) (input : String) :
    let screens := Screens.ofEntries entries
    (∀ span, Span.parse screens input = .ok span ↔ Describes entries input span) ∧
    (∀ e, screens.evaluate root input = .error e ↔ FirstFault entries input Check.order e) ∧
    ((∀ check ∈ Check.order, Passes entries input check) →
      ∃ span css, Describes entries input span ∧ span.css root = .ok css ∧
        screens.evaluate root input = .ok css) := by
  intro screens
  have houtcome := evaluate_outcome entries root input
  refine ⟨parse_eq_ok_iff entries input, ?_, ?_⟩
  · intro e
    constructor
    · intro herror
      rw [herror] at houtcome
      exact houtcome
    · intro hfirst
      -- a row of checks has one first fault, and none where all of them pass
      cases hcase : (Screens.ofEntries entries).evaluate root input with
      | error other =>
        rw [hcase] at houtcome
        rw [houtcome.unique hfirst]
      | ok css =>
        rw [hcase] at houtcome
        exact absurd houtcome.1 hfirst.not_forall_passes
  · intro hall
    cases hcase : (Screens.ofEntries entries).evaluate root input with
    | error other =>
      rw [hcase] at houtcome
      exact absurd hall houtcome.not_forall_passes
    | ok css =>
      rw [hcase] at houtcome
      obtain ⟨-, span, hdescribes, hcss⟩ := houtcome
      exact ⟨span, css, hdescribes, hcss, rfl⟩

-- the screen is not positive and the default of the other side is unknown, but the size comes first
example : (Screens.ofEntries [("DEFAULT_TO", some "sm")]).evaluate .zero "0px 1em, 2px" =
    .error (.shorthand (.badSize "1em" "0px 1em, 2px")) := by
  decide +kernel

end FluidClamp.Shorthand
