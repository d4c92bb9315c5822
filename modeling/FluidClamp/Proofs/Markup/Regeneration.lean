/-
  FluidClamp.Proofs.Markup.Regeneration
  ─────────────────────────────────────
  **A STYLE SHEET MENTIONS NO CLASS.**

  Every part of a rule is quiet.  Properties and values hold no word that begins
  like a class.  A selector begins with a dot, and its class holds no delimiter;
  but the comma of a shorthand is written with a blank behind it, so what follows
  the comma stands where a class may begin.  It begins with a blank that is written
  as an underscore, or with the first word of the second anchor, which is a length
  or the name of a screen.  So nothing is found unless a screen has a name that
  begins like a class, and a text together with its style sheet has the style
  sheet of the text alone.
-/
import FluidClamp.Proofs.Generation.Agreement
import FluidClamp.Proofs.Markup.Quiet
import FluidClamp.Proofs.Markup.Tokens
import FluidClamp.Proofs.RuleSet.Origin
import FluidClamp.Proofs.Utility.Templates

namespace FluidClamp

/-! ## §1. Lengths and names. -/

/-- Digits, a sign and a point, and the letters of a unit. -/
theorem IsLength.not_mem {text : String} {length : Length Binary64} (h : IsLength text length) :
    'f' ∉ text.toList := by
  obtain ⟨n, hplain, htext, -, -⟩ := h
  have hdigits : ∀ digits, Numeral.IsDigits digits → 'f' ∉ digits := by
    intro digits hall hmem
    exact absurd (hall 'f' hmem) (by decide)
  have hsign : 'f' ∉ Numeral.signText n.sign := by
    cases n.sign with
    | none => exact List.not_mem_nil
    | some sign => cases sign <;> decide
  have hfraction : 'f' ∉ Numeral.fractionText n.fraction := by
    cases hdigit : n.fraction with
    | none => exact List.not_mem_nil
    | some digits =>
      have hnot := hdigits digits (hplain.fraction digits hdigit).1
      simpa [Numeral.fractionText] using hnot
  have hunit : 'f' ∉ length.unit.text.toList := by
    cases length.unit <;> decide
  rw [htext]
  unfold Numeral.plainText
  simp only [List.mem_append, hsign, hdigits n.whole hplain.whole, hfraction, hunit, or_self,
    not_false_iff]

/-- A name that stands for itself is apart from an escaped text as it is from the
text. -/
theorem Apart.escape {name text : List Char} (h : Apart name text)
    (hplain : ∀ c ∈ name, Css.escapeChar c = [c]) : Apart name (Css.escape text) := by
  induction name generalizing text with
  | nil => exact absurd List.nil_prefix h.1
  | cons c name ih =>
    obtain ⟨hc, hname⟩ := List.forall_mem_cons.1 hplain
    cases text with
    | nil => exact absurd List.nil_prefix h.2
    | cons d text =>
      show Apart (c :: name) (Css.escapeChar d ++ Css.escape text)
      by_cases hcd : c = d
      · subst hcd
        rw [hc]
        exact apart_cons_self_iff.2 (ih (apart_cons_self_iff.1 h) hname)
      · have hslash : c ≠ '\\' := by
          rintro rfl
          exact absurd hc (by decide)
        unfold Css.escapeChar
        split
        · exact apart_cons hslash _ _
        · split
          · exact apart_cons hcd _ _
          · exact apart_cons hslash _ _

/-- A name stands among the entries. -/
theorem Screens.Names.exists_mem {entries : List (String × Option String)} {name width : String}
    (h : Names entries name width) : ∃ entry ∈ entries, entry.1 = name := by
  obtain ⟨-, hlast⟩ := h
  obtain ⟨entry, hmem, hgiven⟩ := List.mem_filterMap.1 (List.mem_of_getLast? hlast)
  refine ⟨entry, hmem, ?_⟩
  unfold givenWidth? at hgiven
  split at hgiven
  · assumption
  · exact nomatch hgiven

/-! ## §2. The first word of an anchor. -/

/-- A beginning without blanks lies within the first word. -/
theorem IsWords.prefix_of_prefix {text word front : List Char} {all : List (List Char)}
    (h : IsWords text (word :: all)) (hfront : front <+: text) (hne : front ≠ [])
    (hclean : ∀ c ∈ front, isBlank c = false) : front <+: word := by
  cases h with
  | @blank c text _ hc _ =>
    cases front with
    | nil => exact absurd rfl hne
    | cons d front =>
      obtain ⟨rfl, -⟩ := List.cons_prefix_cons.1 hfront
      rw [hclean d List.mem_cons_self] at hc
      exact nomatch hc
  | @word word rest all _ _ hrest _ =>
    rcases List.prefix_or_prefix_of_prefix hfront (List.prefix_append word rest) with hin | hout
    · exact hin
    · -- longer than the word it would hold the blank behind it
      obtain ⟨more, rfl⟩ := hout
      cases more with
      | nil => rw [List.append_nil]
      | cons c more =>
        rw [List.prefix_append_right_inj] at hfront
        obtain ⟨behind, rfl⟩ := hfront
        have hblank := hrest c rfl
        rw [hclean c (List.mem_append_right _ List.mem_cons_self)] at hblank
        exact nomatch hblank

namespace Shorthand

variable {entries : List (String × Option String)} {input : String}

/-- **A side begins with a length or with the name of a screen.** -/
theorem exists_first_word {side : Side} {width length : Length Binary64}
    (hscreen : IsScreen entries input side width) (hsize : IsSize input side length) :
    ∃ first rest, SideWords input side (first :: rest) ∧
      ((∃ l, IsLength first l) ∨ ∃ text, Screens.Names entries first text) := by
  obtain ⟨screen, hscreen, hmeans⟩ := hscreen
  obtain ⟨size, hsize, hlength⟩ := hsize
  rcases hscreen with ⟨other, hwords⟩ | ⟨⟨other, hwords⟩, -⟩
  · refine ⟨screen, [other], hwords, ?_⟩
    rcases hmeans with ⟨hown, -⟩ | ⟨-, text, hnames, -⟩
    · exact .inl ⟨_, hown⟩
    · exact .inr ⟨text, hnames⟩
  · -- beside a default there is the size alone
    refine ⟨other, [], hwords, .inl ⟨length, ?_⟩⟩
    rcases hsize with hone | ⟨first, htwo⟩
    · obtain ⟨rfl, -⟩ := List.cons.inj (hone.unique hwords)
      exact hlength
    · exact nomatch htwo.unique hwords

end Shorthand

namespace Markup

open ClassName (start)
open Css (escape escapeChar)

/-- No screen has a name that begins like a class. -/
def HasPlainScreens (config : Config) : Prop :=
  ∀ entry ∈ config.screens.entries, ¬ start.toList <+: entry.1.toList

/-- The second anchor does not begin like a class. -/
theorem not_prefix_finish {config : Config} (hscreens : HasPlainScreens config)
    {input : String} {span : Span Binary64}
    (h : Shorthand.Describes config.screens.entries input span) {text : List Char}
    (hside : Shorthand.IsSide input .finish text) : ¬ start.toList <+: text := by
  intro hprefix
  obtain ⟨first, rest, ⟨other, hother, hwords⟩, hfirst⟩ :=
    Shorthand.exists_first_word h.finishScreen h.finishSize
  obtain rfl := hside.unique hother
  have hword := hwords.prefix_of_prefix hprefix (by decide) (by decide)
  rcases hfirst with ⟨length, hlength⟩ | ⟨width, hnames⟩
  · exact hlength.not_mem (hword.subset (by decide))
  · obtain ⟨entry, hmem, rfl⟩ := hnames.exists_mem
    exact hscreens entry hmem hword

/-! ## §3. The class in a selector. -/

/-- Without a comma no blank is written. -/
theorem isInert_escape_of_not_mem {text : List Char} (h : ∀ c ∈ text, isDelimiter c = false)
    (hcomma : ',' ∉ text) : IsInert (escape text) := by
  apply isInert_of_forall
  intro d hd
  obtain ⟨c, hc, hd⟩ := List.mem_flatMap.1 hd
  have hne : c ≠ ',' := fun heq => hcomma (heq ▸ hc)
  have hchars : d = '\\' ∨ d = c := by
    unfold escapeChar at hd
    rw [if_neg hne] at hd
    split at hd
    · exact .inr (List.mem_singleton.1 hd)
    · simpa using hd
  rcases hchars with rfl | rfl
  · decide
  · exact h d hc

theorem isDelimiter_blank : isDelimiter ' ' = true := by decide

/-- The one comma of a text is written with a blank behind it, where a class may
begin. -/
theorem isInert_escape_comma {front behind : List Char}
    (h : ∀ c ∈ front ++ ',' :: behind, isDelimiter c = false) (hfront : ',' ∉ front)
    (hbehind : ',' ∉ behind) (hapart : Apart start.toList behind) :
    IsInert (escape (front ++ ',' :: behind)) := by
  rw [List.forall_mem_append, List.forall_mem_cons] at h
  obtain ⟨hcleanFront, -, hcleanBehind⟩ := h
  have hquiet : IsQuiet (escape behind) :=
    (isInert_escape_of_not_mem hcleanBehind hbehind).isQuiet (hapart.escape (by decide))
  have hcode : IsInert ['\\', '2', 'c'] := isInert_of_isInertText (by decide)
  have hcomma : IsInert (['\\', '2', 'c'] ++ ' ' :: escape behind) :=
    hcode.append (hquiet.cons isDelimiter_blank).isInert
  rw [Css.escape_append]
  exact (isInert_escape_of_not_mem hcleanFront hfront).append hcomma

/-- The comma of a class stands where the comma of its shorthand does. -/
theorem exists_of_unfold_eq {raw other text : List Char}
    (h : (ClassName.unfold raw).toList = other ++ ',' :: text) :
    ∃ left right, raw = left ++ ',' :: right ∧ (ClassName.unfold left).toList = other ∧
      (ClassName.unfold right).toList = text := by
  unfold ClassName.unfold at h
  rw [String.toList_ofList, List.map_eq_append_iff] at h
  obtain ⟨left, behind, rfl, hleft, hbehind⟩ := h
  obtain ⟨comma, right, rfl, hcomma, hright⟩ := List.map_eq_cons_iff.1 hbehind
  have hmark : comma = ',' := by
    split at hcomma
    · exact absurd hcomma (by decide)
    · exact hcomma
  subst hmark
  refine ⟨left, right, rfl, ?_, ?_⟩
  · unfold ClassName.unfold
    rw [String.toList_ofList, hleft]
  · unfold ClassName.unfold
    rw [String.toList_ofList, hright]

/-- What follows the comma of a class does not begin like a class. -/
theorem apart_of_isSide {config : Config} (hscreens : HasPlainScreens config) {right : List Char}
    {input : String} {span : Span Binary64}
    (h : Shorthand.Describes config.screens.entries input span)
    (hside : Shorthand.IsSide input .finish (ClassName.unfold right).toList) :
    Apart start.toList (right ++ [']']) := by
  constructor
  · intro hprefix
    rcases List.prefix_concat_iff.1 hprefix with heq | hprefix
    · have hbracket : ']' ∈ start.toList := heq ▸ List.mem_append_right _ List.mem_cons_self
      exact absurd hbracket (by decide)
    · obtain ⟨more, rfl⟩ := hprefix
      apply not_prefix_finish hscreens h hside
      unfold ClassName.unfold
      rw [String.toList_ofList, List.map_append]
      -- the beginning holds no underscore
      exact List.prefix_append _ _
  · intro hprefix
    have hbracket : ']' ∈ start.toList := hprefix.subset (List.mem_append_right _ List.mem_cons_self)
    exact absurd hbracket (by decide)

/-- **A class with a rule is inert in its selector.** -/
theorem isInert_escape {config : Config} (hscreens : HasPlainScreens config) {text : String}
    (hclass : IsClass text.toList) {rule : Css.Rule}
    (h : config.resolve text = .ok (some rule)) : IsInert (escape text.toList) := by
  have hclean := hclass.isDelimiter_eq_false
  by_cases hlast : text.toList.getLast? = some ']'
  · -- between brackets there is a shorthand, and it has a value
    obtain ⟨className, shorthand, css, hparse, hshorthand, hcss, -⟩ :=
      Config.exists_of_resolve_eq_ok h
    obtain ⟨span, value, hspan, -⟩ := Config.exists_value_of_evaluate hcss
    obtain ⟨raw, hvalue, htext⟩ := ClassName.exists_raw_of_parse? hlast hparse
    unfold Config.shorthandOf? at hshorthand
    rw [hvalue] at hshorthand
    obtain rfl := Option.some.inj hshorthand
    -- the only comma of the class is the one between the anchors
    obtain ⟨-, -, ⟨side, hside, -⟩, -⟩ :=
      Shorthand.exists_first_word hspan.finishScreen hspan.finishSize
    obtain ⟨other, hinput, hother, hcomma⟩ := id hside
    obtain ⟨left, right, rfl, rfl, rfl⟩ := exists_of_unfold_eq hinput
    rw [mem_unfold_iff (by decide) (by decide)] at hother hcomma
    have hname : ',' ∉ className.utility.name.toList := by
      intro hmem
      exact absurd (mem_of_isName (isName_utility (ClassName.utility_mem_table hparse)) hmem)
        (by decide)
    have hstart : ',' ∉ start.toList := by decide
    have hsplit : text.toList =
        (start.toList ++ (className.utility.name.toList ++ '-' :: '[' :: left)) ++
          ',' :: (right ++ [']']) := by
      rw [htext]
      simp
    rw [hsplit] at hclean ⊢
    exact isInert_escape_comma hclean (by simp [hstart, hname, hother]) (by simp [hcomma])
      (apart_of_isSide hscreens hspan hside)
  · -- a name has no comma
    exact isInert_escape_of_not_mem hclean (hclass.not_mem_comma hlast)

/-! ## §4. The values and the table. -/

/-- A number with a unit. -/
theorem isQuiet_number (x : Binary64) {unit : List Char}
    (hunit : ∀ c ∈ unit, isDelimiter c = false) (hhead : ∃ c ∈ unit.head?, c ≠ 'f') :
    IsQuiet (x.cssText.toList ++ unit) := by
  have hsigns : ∀ c ∈ ['-', '+', '.'], isDelimiter c = false := by decide
  have hnumber : ∀ c ∈ x.cssText.toList, isDelimiter c = false := by
    intro c hc
    rcases Binary64.mem_cssText_cases hc with halphanum | hsign
    · exact isDelimiter_of_isAlphanum halphanum
    · exact hsigns c hsign
  apply isQuiet_of_forall (List.forall_mem_append.2 ⟨hnumber, hunit⟩)
  rw [List.head?_append]
  cases hfirst : x.cssText.toList.head? with
  | none => exact hhead
  | some c => exact ⟨c, rfl, x.head?_cssText_ne c hfirst⟩

theorem isQuiet_length (x : Binary64) (unit : LengthUnit) :
    IsQuiet (x.cssText.toList ++ unit.text.toList) := by
  apply isQuiet_number x
  · cases unit <;> decide
  · cases unit <;> decide

theorem isInert_offset (unit : LengthUnit) (offset : Option (Sign × Binary64)) :
    IsInert (FluidValue.text.offsetText Binary64.cssText unit offset).toList := by
  cases offset with
  | none => exact isInert_nil
  | some signed =>
    obtain ⟨sign, x⟩ := signed
    have hsign : IsInert [' ', sign.toChar] := by
      apply isInert_of_isInertText
      cases sign <;> decide
    have hnumber := (isQuiet_length x unit).cons isDelimiter_blank
    have hoffset := hsign.append hnumber.isInert
    simpa [FluidValue.text.offsetText] using hoffset

/-- **The text of a value is quiet.** -/
theorem isQuiet_text (value : FluidValue Binary64) :
    IsQuiet (value.text Binary64.cssText).toList := by
  cases value with
  | constant size =>
    show IsQuiet (size.value.cssText ++ size.unit.text).toList
    rw [String.toList_append]
    exact isQuiet_length size.value size.unit
  | clamp low slope offset high unit =>
    have hopen : IsQuiet "clamp(".toList := isQuiet_of_isQuietText (by decide)
    have hcomma : IsInert [','] := isInert_of_isInertText (by decide)
    have hclose : IsInert [')'] := isInert_of_isInertText (by decide)
    have hslope : IsQuiet (slope.cssText.toList ++ "vw".toList) :=
      isQuiet_number slope (by decide) (by decide)
    -- behind a blank there is always a number or a sign
    have hlow := (isQuiet_length low unit).isInert.append hcomma
    have hmiddle := (hslope.cons isDelimiter_blank).isInert.append
      ((isInert_offset unit offset).append hcomma)
    have hhigh := ((isQuiet_length high unit).cons isDelimiter_blank).isInert.append hclose
    have hclamp := hopen.append (hlow.append (hmiddle.append hhigh))
    have hcommaText : ", ".toList = [',', ' '] := rfl
    have hcloseText : ")".toList = [')'] := rfl
    unfold FluidValue.text
    simpa only [String.toList_append, hcommaText, hcloseText, List.append_assoc,
      List.cons_append, List.nil_append] using hclamp

/-- Filled with a quiet text, the template is a quiet declaration. -/
def isQuietTemplate : Template → Bool
  | .value property => isQuietText property.toList
  | .wrapped property before after =>
      isQuietText property.toList && isQuietText before.toList && isInertText after.toList
  | .fixed property text => isQuietText property.toList && isQuietText text.toList

theorem isQuietDeclaration_fill {template : Template} (h : isQuietTemplate template = true)
    {value : String} (hvalue : IsQuiet value.toList) :
    IsQuietDeclaration (template.fill value) := by
  cases template with
  | value property => exact ⟨isQuiet_of_isQuietText h, hvalue⟩
  | wrapped property before after =>
    simp only [isQuietTemplate, Bool.and_eq_true] at h
    obtain ⟨⟨hproperty, hbefore⟩, hafter⟩ := h
    refine ⟨isQuiet_of_isQuietText hproperty, ?_⟩
    have hinside := (isQuiet_of_isQuietText hbefore).append hvalue.isInert
    have hwhole := hinside.append (isInert_of_isInertText hafter)
    simpa [Template.fill] using hwhole
  | fixed property text =>
    simp only [isQuietTemplate, Bool.and_eq_true] at h
    exact ⟨isQuiet_of_isQuietText h.1, isQuiet_of_isQuietText h.2⟩

/-- Whether it is, decided on the bytes of its texts. -/
theorem isQuietTemplate_eq (template : Template) :
    isQuietTemplate template =
      match template with
      | .value property => isQuietText (charsOf property)
      | .wrapped property before after =>
          isQuietText (charsOf property) && isQuietText (charsOf before) &&
            isInertText (charsOf after)
      | .fixed property text => isQuietText (charsOf property) && isQuietText (charsOf text) := by
  cases template <;> simp only [isQuietTemplate, charsOf_eq_toList]

theorem isQuietTemplate_of_mem {utility : Utility} (h : utility ∈ Utility.table) :
    ∀ template ∈ utility.body.templates, isQuietTemplate template = true := by
  have htable : ∀ utility ∈ Utility.table, ∀ template ∈ utility.body.templates,
      isQuietTemplate template = true := by
    simp only [isQuietTemplate_eq]
    decide +kernel
  exact htable utility h

/-! ## §5. Style sheets of classes. -/

/-- **A rule is quiet**, if its class was found in a text. -/
theorem isQuietRule_of_resolve {config : Config} (hscreens : HasPlainScreens config)
    {text : String} (hclass : IsClass text.toList) {rule : Css.Rule}
    (h : config.resolve text = .ok (some rule)) : IsQuietRule rule := by
  have hescape := isInert_escape hscreens hclass h
  obtain ⟨className, shorthand, css, hparse, -, hcss, rfl⟩ := Config.exists_of_resolve_eq_ok h
  obtain ⟨span, value, -, rfl⟩ := Config.exists_value_of_evaluate hcss
  have hmem := ClassName.utility_mem_table hparse
  constructor
  · have hdot : IsQuiet ['.'] := isQuiet_of_isQuietText (by decide)
    have htail : IsInert className.utility.body.selectorTail.toList := by
      apply isInert_of_isInertText
      rcases className.utility.body.selectorTail_cases with htail | htail <;> rw [htail] <;> decide
    have hselector := hdot.append (hescape.append htail)
    simpa [Utility.rule] using hselector
  · intro declaration hdeclaration
    obtain ⟨template, htemplate, rfl⟩ := Utility.mem_declarations_rule_iff.1 hdeclaration
    exact isQuietDeclaration_fill (isQuietTemplate_of_mem hmem template htemplate)
      (isQuiet_text value)

/-- **The style sheet of classes mentions none.** -/
theorem classes_css_ofClasses {config : Config} (hscreens : HasPlainScreens config)
    {texts : List String} (htexts : ∀ text ∈ texts, IsClass text.toList) (layout : Css.Layout) :
    classes ((RuleSet.ofClasses config texts).css layout) = [] := by
  have hlisting := (RuleSet.collects_ofClasses config texts).isListing
  have hrule : ∀ rule ∈ (RuleSet.ofClasses config texts).lines.map RuleSet.Line.rule,
      rule.declarations ≠ [] ∧ IsQuietRule rule := by
    intro rule hmem
    obtain ⟨line, hline, rfl⟩ := List.mem_map.1 hmem
    obtain ⟨hadded, hresolve, -⟩ := (hlisting.mem_iff line).1 hline
    exact ⟨Config.declarations_ne_nil_of_resolve hresolve,
      isQuietRule_of_resolve hscreens (htexts _ hadded) hresolve⟩
  have hsheet := Css.StyleSheet.isSheet_render layout fun rule hmem => (hrule rule hmem).1
  have hfound := foundFrom_sheet hsheet (fun rule hmem => (hrule rule hmem).2) true
  rw [RuleSet.css_eq_render]
  show ((foundFrom true _).map String.ofList).eraseDups = []
  rw [hfound]
  rfl

theorem isClass_of_mem_classes {text className : String} (h : className ∈ classes text) :
    IsClass className.toList :=
  isClass_of_mem_found (mem_classes_iff.1 h)

/-- **Generating again changes nothing.**  If no screen has a name that begins like a
class, the style sheet of a text mentions no class, and the text followed by its
style sheet has the same style sheet; so have files one more of which holds the
style sheet of the others. -/
theorem css_regenerates {config : Config}
    (hscreens : ∀ entry ∈ config.screens.entries, ¬ start.toList <+: entry.1.toList)
    (layout : Css.Layout) :
    (∀ content, classes (css config layout content) = [] ∧
      css config layout (content ++ "\n" ++ css config layout content) =
        css config layout content) ∧
    ∀ (tree tree' : FileTree) (paths paths' : List String),
      (∀ text, text ∈ tree'.texts paths' ↔
        text ∈ tree.texts paths ∨ text = (Generation.ofFiles tree config layout paths).css) →
      (Generation.ofFiles tree' config layout paths').css =
        (Generation.ofFiles tree config layout paths).css := by
  constructor
  · intro content
    have hnone : classes (css config layout content) = [] :=
      classes_css_ofClasses hscreens (fun text => isClass_of_mem_classes) layout
    refine ⟨hnone, ?_⟩
    -- a line end lies between the two texts, so no class is made of both
    have hsame : ∀ className,
        className ∈ classes (content ++ "\n" ++ css config layout content) ↔
          className ∈ classes content := by
      intro className
      have hline : isDelimiter '\n' = true := by decide
      have htext : content ++ "\n" ++ css config layout content =
          String.intercalate (String.singleton '\n') [content, css config layout content] := rfl
      rw [htext, mem_classes_intercalate_iff hline]
      simp [hnone]
    exact RuleSet.css_ofClasses_congr config hsame layout
  · intro tree tree' paths paths' htexts
    have hclass : ∀ text ∈ tree.allMentions paths, IsClass text.toList := by
      intro className hmem
      obtain ⟨text, -, hmentioned⟩ := FileTree.mem_allMentions_iff.1 hmem
      exact isClass_of_mem_classes hmentioned
    have hnone : classes (Generation.ofFiles tree config layout paths).css = [] := by
      rw [Generation.css_ofFiles]
      exact classes_css_ofClasses hscreens hclass layout
    have hsame : ∀ className,
        className ∈ tree'.allMentions paths' ↔ className ∈ tree.allMentions paths := by
      intro className
      simp only [FileTree.mem_allMentions_iff, htexts, or_and_right, exists_or, exists_eq_left,
        hnone, List.not_mem_nil, or_false]
    rw [Generation.css_ofFiles, Generation.css_ofFiles]
    exact RuleSet.css_ofClasses_congr config hsame layout

/-- A configuration with one screen, `md`. -/
def withMd : Config := { screens := .ofList [("md", some "768px")] }

/-- The named screen begins the second anchor, behind the blank that the comma is
written with. -/
theorem css_regenerates_md :
    let content := "fluid-p-[1280px_2px,md_1px]"
    let sheet := r".fluid-p-\[1280px_2px\2c md_1px\]{padding:clamp(1px, 0.19531vw - 0.5px, 2px)}"
    let tree := FileTree.empty.put ["a.html"] (.file (Bytes.ofText content))
    let tree' := tree.put ["all.css"] (.file (Bytes.ofText sheet))
    css withMd .minified content = sheet ∧ classes sheet = [] ∧
      css withMd .minified (content ++ "\n" ++ sheet) = sheet ∧
      (Generation.ofFiles tree' withMd .minified ["a.html", "all.css"]).css = sheet := by
  intro content sheet tree tree'
  have hscreens : ∀ entry ∈ withMd.screens.entries, ¬ start.toList <+: entry.1.toList := by
    decide
  obtain ⟨htext, hfiles⟩ := css_regenerates hscreens .minified
  have hclasses : classes content = [content] := classes_of_isClass (by decide +kernel)
  have hrule : withMd.resolve content = .ok (some ⟨r".fluid-p-\[1280px_2px\2c md_1px\]",
      [⟨"padding", "clamp(1px, 0.19531vw - 0.5px, 2px)"⟩]⟩) := by decide +kernel
  have hrender := RuleSet.css_ofClasses_singleton hrule .minified
  have hsheet : css withMd .minified content = sheet := by
    show (RuleSet.ofClasses withMd (classes content)).css .minified = sheet
    rw [hclasses, hrender]
    decide +kernel
  have hone : tree.texts ["a.html"] = [content] := by decide +kernel
  have hboth : tree'.texts ["a.html", "all.css"] = [content, sheet] := by decide +kernel
  have hfirst : (Generation.ofFiles tree withMd .minified ["a.html"]).css = sheet := by
    have hmentions : ∀ className,
        className ∈ tree.allMentions ["a.html"] ↔ className ∈ classes content := by
      intro className
      rw [FileTree.mem_allMentions_iff, hone]
      simp
    rw [Generation.css_ofFiles, RuleSet.css_ofClasses_congr withMd hmentions]
    exact hsheet
  obtain ⟨hnone, hagain⟩ := htext content
  rw [hsheet] at hnone hagain
  refine ⟨hsheet, hnone, hagain, ?_⟩
  rw [← hfirst]
  apply hfiles
  intro text
  rw [hboth, hone, hfirst]
  simp

end Markup

end FluidClamp
