/-
  FluidClamp.Proofs.Css.Reading
  ─────────────────────────────
  **A STYLE SHEET IS READ BACK FROM EITHER LAYOUT.**

  The two layouts differ in the blanks that they put around selectors, properties
  and values.  What a text has in common with every other text of the same rules
  is said by relations that leave those blanks open:

      declaration    blanks property : blanks value blanks
      body           declarations, a semicolon between two of them
      rule           blanks selector blanks { body }
      sheet          rules, and blanks at the end

  Both layouts write texts of this form (`isSheet_render`), and reading a text of
  this form gives its rules, if no mark stands inside a part (`IsReadable`).
-/
import FluidClamp.Css.Name
import FluidClamp.Css.Rule
import FluidClamp.Proofs.Text.Ascii
import FluidClamp.Proofs.Text.Cut
import FluidClamp.Proofs.Text.Words

namespace FluidClamp.Css

/-- Blanks only. -/
def IsBlanks (text : List Char) : Prop := ∀ c ∈ text, isBlank c = true

instance (text : List Char) : Decidable (IsBlanks text) :=
  inferInstanceAs (Decidable (∀ c ∈ text, isBlank c = true))

theorem IsBlanks.not_mem {text : List Char} (h : IsBlanks text) {c : Char}
    (hc : isBlank c = false) : c ∉ text := by
  intro hmem
  rw [h c hmem] at hc
  exact nomatch hc

/-! ## §1. Selectors. -/

/-- Reading a selector goes on behind the text, which ends none. -/
def IsSelector (text : List Char) : Prop :=
  ∀ rest, readSelector (text ++ rest) =
    (readSelector rest).map fun read => (text ++ read.1, read.2)

theorem isSelector_nil : IsSelector [] := by
  intro rest
  simp

theorem IsSelector.append {s t : List Char} (hs : IsSelector s) (ht : IsSelector t) :
    IsSelector (s ++ t) := by
  intro rest
  rw [List.append_assoc, hs, ht, Option.map_map]
  simp [Function.comp_def]

theorem isSelector_singleton {c : Char} (hbrace : c ≠ '{') (hescape : c ≠ '\\') :
    IsSelector [c] := by
  intro rest
  show readSelector (c :: rest) = _
  cases rest <;> simp [readSelector, hbrace, hescape]

/-- Behind a backslash every character is part of the selector. -/
theorem isSelector_escaped (c : Char) : IsSelector ['\\', c] := by
  intro rest
  show readSelector ('\\' :: c :: rest) = _
  rw [readSelector]
  rfl

theorem isSelector_of_forall {text : List Char} (h : ∀ c ∈ text, c ≠ '{' ∧ c ≠ '\\') :
    IsSelector text := by
  induction text with
  | nil => exact isSelector_nil
  | cons c text ih =>
    have hc := h c List.mem_cons_self
    have htext := ih fun d hd => h d (List.mem_cons_of_mem c hd)
    exact (isSelector_singleton hc.1 hc.2).append htext

/-- **An escaped name never ends a selector**, whatever characters it has. -/
theorem isSelector_escape (name : List Char) : IsSelector (escape name) := by
  induction name with
  | nil => exact isSelector_nil
  | cons c name ih =>
    refine IsSelector.append ?_ ih
    unfold escapeChar
    split
    · exact (isSelector_escaped '2').append (isSelector_of_forall (by decide))
    · split
      · next hname =>
        -- neither mark stands for itself in a name
        apply isSelector_singleton <;> rintro rfl <;> exact absurd hname (by decide)
      · exact isSelector_escaped c

theorem IsSelector.readSelector_brace {text : List Char} (h : IsSelector text)
    (rest : List Char) : readSelector (text ++ '{' :: rest) = some (text, rest) := by
  have hbrace : readSelector ('{' :: rest) = some ([], rest) := by
    cases rest <;> simp [readSelector]
  rw [h, hbrace]
  simp

/-! ## §2. Declarations. -/

/-- No mark stands in the text, and no blank at its ends. -/
structure IsPart (marks : List Char) (text : String) : Prop where
  trimmed : IsTrimmed isBlank text.toList
  not_mem : ∀ mark ∈ marks, mark ∉ text.toList

theorem isPart_iff (marks : List Char) (text : String) :
    IsPart marks text ↔ IsTrimmed isBlank (charsOf text) ∧ ∀ mark ∈ marks, mark ∉ charsOf text := by
  rw [charsOf_eq_toList]
  exact ⟨fun h => ⟨h.trimmed, h.not_mem⟩, fun h => ⟨h.1, h.2⟩⟩

instance (marks : List Char) (text : String) : Decidable (IsPart marks text) :=
  decidable_of_iff _ (isPart_iff marks text).symm

/-- What ends a property. -/
def propertyMarks : List Char := [':', ';', '}']

/-- What ends a value. -/
def valueMarks : List Char := [';', '}']

/-- The parts of the declaration can be told apart in its text. -/
structure Declaration.IsReadable (d : Declaration) : Prop where
  property : IsPart propertyMarks d.property
  value : IsPart valueMarks d.value

/-- The text is the declaration, with blanks around its parts. -/
def Declaration.StandsIn (d : Declaration) (text : List Char) : Prop :=
  ∃ before between after, IsBlanks before ∧ IsBlanks between ∧ IsBlanks after ∧
    text = before ++ d.property.toList ++ ':' :: (between ++ d.value.toList ++ after)

namespace Declaration

variable {d : Declaration} {text : List Char}

theorem IsReadable.readDeclaration_eq (h : d.IsReadable) (htext : d.StandsIn text) :
    readDeclaration text = some d := by
  obtain ⟨before, between, after, hbefore, hbetween, hafter, rfl⟩ := htext
  have hcolon : ':' ∉ before ++ d.property.toList := by
    rw [List.mem_append]
    exact not_or.2 ⟨hbefore.not_mem (by decide), h.property.not_mem ':' (by decide)⟩
  have hproperty : trim isBlank (before ++ d.property.toList) = d.property.toList := by
    have htrim := trim_append h.property.trimmed hbefore (show IsBlanks [] by decide)
    rwa [List.append_nil] at htrim
  unfold readDeclaration
  rw [cutAt?_singleton_append hcolon]
  simp only [Option.map_some, hproperty, trim_append h.value.trimmed hbetween hafter,
    String.ofList_toList]

/-- The marks that end declarations and bodies stand nowhere in it. -/
theorem IsReadable.not_mem (h : d.IsReadable) (htext : d.StandsIn text) {mark : Char}
    (hmark : mark ∈ valueMarks) : mark ∉ text := by
  obtain ⟨before, between, after, hbefore, hbetween, hafter, rfl⟩ := htext
  have hblank : isBlank mark = false ∧ mark ≠ ':' := by
    revert mark
    decide
  have hproperty := h.property.not_mem mark (List.mem_cons_of_mem ':' hmark)
  have hvalue := h.value.not_mem mark hmark
  simp [hbefore.not_mem hblank.1, hbetween.not_mem hblank.1, hafter.not_mem hblank.1, hproperty,
    hvalue, hblank.2]

end Declaration

/-- **The declarations stand in the text**, with a semicolon between two of them. -/
inductive IsBody : List Declaration → List Char → Prop where
  | last {d : Declaration} {text : List Char} : d.StandsIn text → IsBody [d] text
  | more {d : Declaration} {piece : List Char} {all : List Declaration} {rest : List Char} :
      d.StandsIn piece → IsBody all rest → IsBody (d :: all) (piece ++ ';' :: rest)

/-- What is read of the text between two braces. -/
def readBody (text : List Char) : Option (List Declaration) :=
  (splitOn (fun c => decide (c = ';')) text).mapM readDeclaration

theorem IsBody.readBody_eq {all : List Declaration} {text : List Char} (h : IsBody all text)
    (hread : ∀ d ∈ all, d.IsReadable) : readBody text = some all := by
  have hpiece : ∀ {d : Declaration} {piece : List Char}, d.IsReadable → d.StandsIn piece →
      ∀ c ∈ piece, decide (c = ';') = false := by
    intro d piece hd hstands c hc
    rw [decide_eq_false_iff_not]
    rintro rfl
    exact hd.not_mem hstands (by decide) hc
  unfold readBody
  induction h with
  | @last d text hd =>
    have hone := hread d List.mem_cons_self
    rw [splitOn_of_forall (hpiece hone hd)]
    simp [hone.readDeclaration_eq hd]
  | @more d piece all rest hd _ ih =>
    obtain ⟨hone, hrest⟩ := List.forall_mem_cons.1 hread
    rw [splitOn_append_cons (hpiece hone hd) (decide_eq_true rfl), List.mapM_cons,
      hone.readDeclaration_eq hd, ih hrest]
    rfl

theorem IsBody.not_mem {all : List Declaration} {text : List Char} (h : IsBody all text)
    (hread : ∀ d ∈ all, d.IsReadable) : '}' ∉ text := by
  induction h with
  | last hd => exact (hread _ List.mem_cons_self).not_mem hd (by decide)
  | @more d piece all rest hd _ ih =>
    obtain ⟨hone, hrest⟩ := List.forall_mem_cons.1 hread
    have hpiece := hone.not_mem hd (show '}' ∈ valueMarks by decide)
    simp [hpiece, ih hrest]

/-! ## §3. Rules. -/

/-- The parts of the rule can be told apart in its text. -/
structure Rule.IsReadable (rule : Rule) : Prop where
  selector : IsSelector rule.selector.toList
  selector_trimmed : IsTrimmed isBlank rule.selector.toList
  declarations : ∀ d ∈ rule.declarations, d.IsReadable

/-- The text is the rule, with blanks before it and around its parts. -/
def Rule.StandsIn (rule : Rule) (text : List Char) : Prop :=
  ∃ before after body, IsBlanks before ∧ IsBlanks after ∧ IsBody rule.declarations body ∧
    text = before ++ rule.selector.toList ++ after ++ '{' :: (body ++ ['}'])

theorem isSelector_blanks {text : List Char} (h : IsBlanks text) : IsSelector text := by
  apply isSelector_of_forall
  intro c hc
  constructor <;> rintro rfl <;> exact h.not_mem (by decide) hc

/-- **One rule is read, and what stands behind it is left.** -/
theorem Rule.IsReadable.readRule_append {rule : Rule} (h : rule.IsReadable) {text : List Char}
    (htext : rule.StandsIn text) (rest : List Char) :
    readRule (text ++ rest) = some (rule, rest) := by
  obtain ⟨before, after, body, hbefore, hafter, hbody, rfl⟩ := htext
  have hselector : IsSelector (before ++ rule.selector.toList ++ after) :=
    ((isSelector_blanks hbefore).append h.selector).append (isSelector_blanks hafter)
  have hread : readSelector (before ++ rule.selector.toList ++ after ++ '{' ::
      (body ++ ['}']) ++ rest) =
        some (before ++ rule.selector.toList ++ after, body ++ '}' :: rest) := by
    have hbrace := hselector.readSelector_brace (body ++ '}' :: rest)
    simpa using hbrace
  have hcut := cutAt?_singleton_append (hbody.not_mem h.declarations) rest
  have hdeclarations := hbody.readBody_eq h.declarations
  unfold readBody at hdeclarations
  unfold readRule
  rw [hread]
  simp only [Option.bind_eq_bind, Option.bind_some, hcut, hdeclarations, Option.pure_def,
    trim_append h.selector_trimmed hbefore hafter, String.ofList_toList]

/-- A rule is not blank, since it has a brace. -/
theorem Rule.StandsIn.isAllBlank_append {rule : Rule} {text : List Char}
    (htext : rule.StandsIn text) (rest : List Char) : isAllBlank (text ++ rest) = false := by
  obtain ⟨before, after, body, -, -, -, rfl⟩ := htext
  unfold isAllBlank
  rw [List.all_eq_false]
  refine ⟨'{', by simp, by decide⟩

/-! ## §4. Style sheets. -/

namespace StyleSheet

/-- **The rules stand in the text**, one after the other, and blanks behind them. -/
inductive IsSheet : List Rule → List Char → Prop where
  | nil {text : List Char} : IsBlanks text → IsSheet [] text
  | cons {rule : Rule} {piece : List Char} {rules : List Rule} {rest : List Char} :
      rule.StandsIn piece → IsSheet rules rest → IsSheet (rule :: rules) (piece ++ rest)

theorem IsSheet.readRules_eq {rules : List Rule} {text : List Char} (h : IsSheet rules text)
    (hread : ∀ rule ∈ rules, rule.IsReadable) :
    ∀ fuel, rules.length < fuel → readRules fuel text = some rules := by
  -- each rule takes one unit of fuel, and the blanks at the end take the last
  induction h with
  | @nil text hblank =>
    intro fuel hfuel
    obtain ⟨fuel, rfl⟩ := Nat.exists_eq_succ_of_ne_zero (by omega : fuel ≠ 0)
    have hall : isAllBlank text = true := List.all_eq_true.2 hblank
    rw [readRules, if_pos hall]
  | @cons rule piece rules rest hrule _ ih =>
    intro fuel hfuel
    obtain ⟨fuel, rfl⟩ := Nat.exists_eq_succ_of_ne_zero (by omega : fuel ≠ 0)
    obtain ⟨hone, hrest⟩ := List.forall_mem_cons.1 hread
    have hblank : ¬ isAllBlank (piece ++ rest) = true :=
      Bool.eq_false_iff.1 (hrule.isAllBlank_append rest)
    have htail := ih hrest fuel (by simpa using hfuel)
    rw [readRules, if_neg hblank, hone.readRule_append hrule]
    simp [htail]

/-- Every rule takes room. -/
theorem IsSheet.length_le {rules : List Rule} {text : List Char} (h : IsSheet rules text) :
    rules.length ≤ text.length := by
  induction h with
  | nil _ => exact Nat.zero_le _
  | cons hrule _ ih =>
    obtain ⟨before, after, body, -, -, -, rfl⟩ := hrule
    simp
    omega

/-- **Rules that can be told apart are read**, however they are laid out. -/
theorem IsSheet.read_eq {rules : List Rule} {text : String} (h : IsSheet rules text.toList)
    (hread : ∀ rule ∈ rules, rule.IsReadable) : read text = some rules := by
  have hlength := h.length_le
  rw [String.length_toList] at hlength
  exact h.readRules_eq hread _ (by omega)

end StyleSheet

/-! ## §5. The two layouts. -/

theorem Declaration.standsIn_render (d : Declaration) (layout : Layout) :
    d.StandsIn (d.render layout).toList := by
  cases layout with
  | pretty =>
    refine ⟨"    ".toList, [' '], [], by decide, by decide, by decide, ?_⟩
    simp [render]
  | minified =>
    refine ⟨[], [], [], by decide, by decide, by decide, ?_⟩
    simp [render]

/-- Blanks on either side belong to the declaration. -/
theorem Declaration.StandsIn.pad {d : Declaration} {text : List Char} (h : d.StandsIn text)
    {left right : List Char} (hleft : IsBlanks left) (hright : IsBlanks right) :
    d.StandsIn (left ++ text ++ right) := by
  obtain ⟨before, between, after, hbefore, hbetween, hafter, rfl⟩ := h
  refine ⟨left ++ before, between, after ++ right, List.forall_mem_append.2 ⟨hleft, hbefore⟩,
    hbetween, List.forall_mem_append.2 ⟨hafter, hright⟩, ?_⟩
  simp

/-- Declarations are a body whose lines are put into blanks. -/
theorem isBody_intercalate (layout : Layout) {left right : List Char} (hleft : IsBlanks left)
    (hright : IsBlanks right) {all : List Declaration} (hne : all ≠ []) :
    IsBody all (left ++ (';' :: left).intercalate
      (all.map fun d => (d.render layout).toList) ++ right) := by
  induction all with
  | nil => exact absurd rfl hne
  | cons d all ih =>
    have hd := d.standsIn_render layout
    cases all with
    | nil =>
      rw [List.map_cons, List.map_nil, List.intercalate_singleton]
      exact .last (hd.pad hleft hright)
    | cons next all =>
      have hrest := ih (List.cons_ne_nil next all)
      have hone := hd.pad hleft (show IsBlanks [] by decide)
      have hbody := IsBody.more hone hrest
      simpa [List.intercalate_cons_cons] using hbody

/-- **Either layout writes the rule.** -/
theorem Rule.standsIn_render {rule : Rule} (hne : rule.declarations ≠ []) (layout : Layout) :
    rule.StandsIn (rule.render layout).toList := by
  cases layout with
  | pretty =>
    have hline : IsBlanks ['\n'] := by decide
    have hbody := isBody_intercalate .pretty hline hline hne
    refine ⟨[], [' '], _, by decide, by decide, hbody, ?_⟩
    simp [render, String.toList_intercalate, Function.comp_def]
  | minified =>
    have hempty : IsBlanks [] := by decide
    have hbody := isBody_intercalate .minified hempty hempty hne
    refine ⟨[], [], _, hempty, hempty, hbody, ?_⟩
    simp [render, String.toList_intercalate, Function.comp_def]

theorem Rule.StandsIn.indent {rule : Rule} {text : List Char} (h : rule.StandsIn text)
    {left : List Char} (hleft : IsBlanks left) : rule.StandsIn (left ++ text) := by
  obtain ⟨before, after, body, hbefore, hafter, hbody, rfl⟩ := h
  refine ⟨left ++ before, after, body, List.forall_mem_append.2 ⟨hleft, hbefore⟩, hafter, hbody, ?_⟩
  simp

/-- Nothing between the texts. -/
theorem nil_intercalate (texts : List (List Char)) : [].intercalate texts = texts.flatten := by
  induction texts with
  | nil => rfl
  | cons text texts ih =>
    cases texts with
    | nil => simp
    | cons next texts =>
      rw [List.intercalate_cons_cons, ih, List.append_nil, ← List.flatten_cons]

namespace StyleSheet

/-- Blanks in front of a sheet belong to its first rule. -/
theorem IsSheet.indent {rules : List Rule} {text : List Char} (h : IsSheet rules text)
    {left : List Char} (hleft : IsBlanks left) : IsSheet rules (left ++ text) := by
  cases h with
  | nil hblank => exact .nil (List.forall_mem_append.2 ⟨hleft, hblank⟩)
  | cons hrule hrest =>
    rw [← List.append_assoc]
    exact .cons (hrule.indent hleft) hrest

/-- Rules joined by blanks are a sheet. -/
theorem isSheet_intercalate (layout : Layout) {line right : List Char} (hline : IsBlanks line)
    (hright : IsBlanks right) {rules : List Rule} (hne : ∀ rule ∈ rules, rule.declarations ≠ []) :
    IsSheet rules
      (line.intercalate (rules.map fun rule => (rule.render layout).toList) ++ right) := by
  induction rules with
  | nil => exact .nil hright
  | cons rule rules ih =>
    obtain ⟨hone, hrest⟩ := List.forall_mem_cons.1 hne
    have hrule := Rule.standsIn_render hone layout
    cases rules with
    | nil =>
      rw [List.map_cons, List.map_nil, List.intercalate_singleton]
      exact .cons hrule (.nil hright)
    | cons next rules =>
      -- the line end between two rules is read with the second
      have hsheet := IsSheet.cons hrule ((ih hrest).indent hline)
      simpa [List.intercalate_cons_cons] using hsheet

/-- **Either layout writes the rules**, and nothing but blanks between them. -/
theorem isSheet_render (layout : Layout) {rules : List Rule}
    (hne : ∀ rule ∈ rules, rule.declarations ≠ []) :
    IsSheet rules (render layout rules).toList := by
  cases rules with
  | nil =>
    have hempty : IsSheet [] [] := .nil (by decide)
    simpa [render] using hempty
  | cons rule rules =>
    cases layout with
    | pretty =>
      have hline : IsBlanks ['\n'] := by decide
      have hsheet := isSheet_intercalate .pretty hline hline hne
      simpa [render, String.toList_intercalate, Function.comp_def] using hsheet
    | minified =>
      have hempty : IsBlanks [] := by decide
      have hsheet := isSheet_intercalate .minified hempty hempty hne
      rw [nil_intercalate, List.append_nil] at hsheet
      simpa [render, List.flatMap, Function.comp_def] using hsheet

end StyleSheet

end FluidClamp.Css
