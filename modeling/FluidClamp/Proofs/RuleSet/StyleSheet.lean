/-
  FluidClamp.Proofs.RuleSet.StyleSheet
  ────────────────────────────────────
  **THE STYLE SHEET OF SOME CLASSES.**

  A batch of classes that is added to the empty set comes to a style sheet that
  depends on the classes only by membership: two batches with the same classes
  give the same rules, the same number of them and the same text.  And every rule
  of the batch stands in that text, whole.
-/
import FluidClamp.Proofs.RuleSet.Listing

namespace FluidClamp

/-! ## §1. Every rule stands in the text. -/

namespace Css

theorem exists_intercalate_eq (separator : String) {text : String} {texts : List String}
    (h : text ∈ texts) :
    ∃ before after, String.intercalate separator texts = before ++ text ++ after := by
  induction texts with
  | nil => exact nomatch h
  | cons first rest ih =>
      cases rest with
      | nil =>
          obtain rfl := List.mem_singleton.1 h
          refine ⟨"", "", ?_⟩
          rw [String.intercalate_singleton, String.empty_append, String.append_empty]
      | cons next rest =>
          rw [String.intercalate_cons_cons]
          rcases List.mem_cons.1 h with rfl | hmem
          · refine ⟨"", separator ++ String.intercalate separator (next :: rest), ?_⟩
            rw [String.empty_append, String.append_assoc]
          · obtain ⟨before, after, hrest⟩ := ih hmem
            refine ⟨first ++ separator ++ before, after, ?_⟩
            rw [hrest, String.append_assoc, String.append_assoc, String.append_assoc,
              String.append_assoc, String.append_assoc]

theorem exists_join_eq {text : String} {texts : List String} (h : text ∈ texts) :
    ∃ before after, String.join texts = before ++ text ++ after := by
  obtain ⟨before, after, rfl⟩ := List.append_of_mem h
  refine ⟨String.join before, String.join after, ?_⟩
  rw [String.join_append, String.join_cons, String.append_assoc]

/-- **A style sheet holds the text of each of its rules.** -/
theorem StyleSheet.exists_render_eq {rule : Rule} {rules : List Rule} (h : rule ∈ rules)
    (layout : Layout) :
    ∃ before after, render layout rules = before ++ rule.render layout ++ after := by
  have hmem : rule.render layout ∈ rules.map (Rule.render layout) := List.mem_map_of_mem h
  unfold render
  cases htexts : rules.map (Rule.render layout) with
  | nil =>
      rw [htexts] at hmem
      exact nomatch hmem
  | cons text texts =>
      rw [htexts] at hmem
      cases layout with
      | pretty =>
          obtain ⟨before, after, htext⟩ := exists_intercalate_eq "\n" hmem
          refine ⟨before, after ++ "\n", ?_⟩
          show String.intercalate "\n" (text :: texts) ++ "\n" = _
          rw [htext, String.append_assoc]
      | minified => exact exists_join_eq hmem

end Css

/-! ## §2. One batch. -/

namespace RuleSet

/-- The rules of one batch. -/
def ofClasses (config : Config) (texts : List String) : RuleSet :=
  ((ofConfig config).addAll texts).1

theorem collects_ofClasses (config : Config) (texts : List String) :
    Collects config texts (ofClasses config texts) :=
  (collects_ofConfig config).after (.many texts)

theorem css_eq_render (set : RuleSet) (layout : Css.Layout) :
    set.css layout = Css.StyleSheet.render layout (set.lines.map Line.rule) := by
  unfold css
  rw [sorted_eq]

/-- The number of rules is the number of lines. -/
theorem size_eq_length_lines (set : RuleSet) : set.size = set.lines.length := by
  unfold lines
  rw [List.length_map, List.length_mergeSort]
  rfl

/-- **The lines of a batch depend on the members of the batch alone.** -/
theorem lines_ofClasses_congr (config : Config) {texts texts' : List String}
    (hsame : ∀ text, text ∈ texts ↔ text ∈ texts') :
    (ofClasses config texts).lines = (ofClasses config texts').lines :=
  (collects_ofClasses config texts).isListing.eq (collects_ofClasses config texts').isListing hsame

/-- The style sheet depends on which classes there are, and on nothing else. -/
theorem css_ofClasses_congr (config : Config) {texts texts' : List String}
    (hsame : ∀ text, text ∈ texts ↔ text ∈ texts') (layout : Css.Layout) :
    (ofClasses config texts).css layout = (ofClasses config texts').css layout := by
  rw [css_eq_render, css_eq_render, lines_ofClasses_congr config hsame]

/-- The style sheet of classes whose rules are known and in order. -/
theorem css_ofClasses_of_ordered {config : Config} {lines : List Line}
    (hordered : lines.Pairwise Line.Before)
    (hrules : ∀ line ∈ lines, config.resolve line.text = .ok (some line.rule) ∧
      ClassName.place line.text = line.place) (layout : Css.Layout) :
    (ofClasses config (lines.map Line.text)).css layout =
      Css.StyleSheet.render layout (lines.map Line.rule) := by
  have hlines : IsListing config (lines.map Line.text) lines := by
    refine ⟨hordered, fun line => ⟨fun hmem => ?_, ?_⟩⟩
    · obtain ⟨hresolve, hplace⟩ := hrules line hmem
      obtain ⟨className, hparse⟩ := Config.exists_of_resolve hresolve
      exact ⟨List.mem_map_of_mem hmem, hresolve, hplace ▸ ClassName.hasPlace_place hparse⟩
    · -- a class has one rule and one place, so the line is the one with its class
      rintro ⟨htext, hresolve, hplace⟩
      obtain ⟨⟨place, text, rule⟩, hmem, rfl⟩ := List.mem_map.1 htext
      obtain ⟨hresolve', hplace'⟩ := hrules _ hmem
      obtain ⟨place', text', rule'⟩ := line
      obtain rfl : rule = rule' :=
        Option.some.inj (Except.ok.inj (hresolve'.symm.trans hresolve))
      obtain rfl : place = place' := hplace'.symm.trans hplace.place_eq
      exact hmem
  rw [css_eq_render, (collects_ofClasses config _).isListing.eq hlines fun _ => Iff.rfl]

/-- The style sheet of one class is that of its rule. -/
theorem css_ofClasses_singleton {config : Config} {text : String} {rule : Css.Rule}
    (h : config.resolve text = .ok (some rule)) (layout : Css.Layout) :
    (ofClasses config [text]).css layout = Css.StyleSheet.render layout [rule] := by
  have hrules : ∀ line ∈ [(⟨ClassName.place text, text, rule⟩ : Line)],
      config.resolve line.text = .ok (some line.rule) ∧
        ClassName.place line.text = line.place := by
    intro line hline
    obtain rfl := List.mem_singleton.1 hline
    exact ⟨h, rfl⟩
  exact css_ofClasses_of_ordered (List.pairwise_singleton _ _) hrules layout

/-- The rule of a class in a batch stands in the style sheet. -/
theorem exists_css_ofClasses_eq {config : Config} {text : String} {texts : List String}
    {rule : Css.Rule} (hmem : text ∈ texts) (hrule : config.resolve text = .ok (some rule))
    (layout : Css.Layout) :
    ∃ before after,
      (ofClasses config texts).css layout = before ++ rule.render layout ++ after := by
  have hlines := (collects_ofClasses config texts).isListing
  obtain ⟨className, hparse⟩ := Config.exists_of_resolve hrule
  have hline : (⟨ClassName.place text, text, rule⟩ : Line) ∈ (ofClasses config texts).lines :=
    (hlines.mem_iff _).2 ⟨hmem, hrule, ClassName.hasPlace_place hparse⟩
  rw [css_eq_render]
  exact Css.StyleSheet.exists_render_eq (List.mem_map_of_mem hline) layout

end RuleSet

end FluidClamp
