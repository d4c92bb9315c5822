/-
  FluidClamp.Proofs.Generation.Agreement
  ──────────────────────────────────────
  **THREE WAYS TO ONE STYLE SHEET.**

  A style sheet is made from files, from the standard input, or from a text.  The
  three agree: join the texts of the files by any delimiter, in any order, and

      generate from the files  =  pipe the joined text  =  the classes of the text

  Files are read one by one and each class is kept once per file and once over
  all; the text is searched once.  Both list the same classes (`mem_allMentions_iff`
  against `Markup.mem_classes_intercalate_iff`), only in another order, and the
  style sheet does not depend on the order.  A file that is no text, or is not
  there, has no part in it.  What is counted are the rules of the style sheet as it
  is written: reading the text finds so many (`length_read_css`).
-/
import FluidClamp.Program
import FluidClamp.Proofs.Markup.StyleSheet

namespace FluidClamp

/-! ## §1. The classes that files mention. -/

namespace FileTree

/-- The texts of some files, those left out that are none. -/
def texts (tree : FileTree) (paths : List String) : List String := paths.filterMap tree.readText?

theorem mem_texts_iff {tree : FileTree} {paths : List String} {text : String} :
    text ∈ tree.texts paths ↔ ∃ path ∈ paths, tree.readText? path = some text :=
  List.mem_filterMap

theorem mem_mentions_iff {tree : FileTree} {path className : String} :
    className ∈ tree.mentions path ↔
      ∃ text, tree.readText? path = some text ∧ className ∈ Markup.classes text := by
  unfold mentions
  cases tree.readText? path with
  | none => simp
  | some text => simp

/-- **The classes of some files are those of their texts.** -/
theorem mem_allMentions_iff {tree : FileTree} {paths : List String} {className : String} :
    className ∈ tree.allMentions paths ↔
      ∃ text ∈ tree.texts paths, className ∈ Markup.classes text := by
  unfold allMentions
  rw [List.mem_eraseDups, List.mem_flatMap]
  constructor
  · intro hgiven
    obtain ⟨path, hpath, hmention⟩ := hgiven
    obtain ⟨text, htext, hmem⟩ := mem_mentions_iff.1 hmention
    exact ⟨text, mem_texts_iff.2 ⟨path, hpath, htext⟩, hmem⟩
  · intro hgiven
    obtain ⟨text, htext, hmem⟩ := hgiven
    obtain ⟨path, hpath, hread⟩ := mem_texts_iff.1 htext
    exact ⟨path, hpath, mem_mentions_iff.2 ⟨text, hread, hmem⟩⟩

/-- What files mention are classes. -/
theorem isClass_of_mem_allMentions {tree : FileTree} {paths : List String} {className : String}
    (h : className ∈ tree.allMentions paths) : Markup.IsClass className.toList := by
  obtain ⟨text, -, hmem⟩ := mem_allMentions_iff.1 h
  exact Markup.isClass_of_mem_found (Markup.mem_classes_iff.1 hmem)

theorem nodup_allMentions (tree : FileTree) (paths : List String) :
    (tree.allMentions paths).Nodup := Markup.nodup_eraseDups _

/-- The joined texts mention the same classes. -/
theorem mem_allMentions_iff_mem_classes {tree : FileTree} {paths texts : List String} {mark : Char}
    (htexts : texts.Perm (tree.texts paths)) (hmark : Markup.isDelimiter mark = true)
    (className : String) :
    className ∈ tree.allMentions paths ↔
      className ∈ Markup.classes (String.intercalate (String.singleton mark) texts) := by
  rw [mem_allMentions_iff, Markup.mem_classes_intercalate_iff hmark]
  constructor
  · intro hgiven
    obtain ⟨text, htext, hmem⟩ := hgiven
    exact ⟨text, htexts.mem_iff.2 htext, hmem⟩
  · intro hgiven
    obtain ⟨text, htext, hmem⟩ := hgiven
    exact ⟨text, htexts.mem_iff.1 htext, hmem⟩

end FileTree

/-! ## §2. Generations with the same classes. -/

namespace Generation

/-- Two generations that differ at most in the files that went in and in what was
said about those. -/
structure SameSheet (a b : Generation) : Prop where
  css : a.css = b.css
  classes : a.classes = b.classes
  candidates : a.candidates = b.candidates

theorem css_ofFiles (tree : FileTree) (config : Config) (layout : Css.Layout)
    (paths : List String) :
    (ofFiles tree config layout paths).css =
      (RuleSet.ofClasses config (tree.allMentions paths)).css layout := rfl

theorem classes_ofFiles (tree : FileTree) (config : Config) (layout : Css.Layout)
    (paths : List String) :
    (ofFiles tree config layout paths).classes =
      (RuleSet.ofClasses config (tree.allMentions paths)).lines.length :=
  RuleSet.size_eq_length_lines _

theorem candidates_ofFiles (tree : FileTree) (config : Config) (layout : Css.Layout)
    (paths : List String) :
    (ofFiles tree config layout paths).candidates = (tree.allMentions paths).toFinset.card :=
  (List.toFinset_card_of_nodup (tree.nodup_allMentions paths)).symm

/-- **The style sheet is read as the rules of the classes** that the files mention. -/
theorem read_css_ofFiles (tree : FileTree) (config : Config) (layout : Css.Layout)
    (paths : List String) :
    Css.StyleSheet.read (ofFiles tree config layout paths).css =
      some ((RuleSet.ofClasses config (tree.allMentions paths)).lines.map RuleSet.Line.rule) :=
  Markup.read_css_ofClasses config
    (fun _ hclass => FileTree.isClass_of_mem_allMentions hclass) layout

/-- So the number of classes is the number of rules in the text. -/
theorem length_read_css (tree : FileTree) (config : Config) (layout : Css.Layout)
    (paths : List String) :
    (Css.StyleSheet.read (ofFiles tree config layout paths).css).map List.length =
      some (ofFiles tree config layout paths).classes := by
  rw [read_css_ofFiles, classes_ofFiles, Option.map_some, List.length_map]

/-- Files that hold one class each come to the rules of these classes. -/
theorem css_ofFiles_of_ordered {tree : FileTree} {config : Config} {paths : List String}
    {lines : List RuleSet.Line} (hordered : lines.Pairwise RuleSet.Line.Before)
    (hrules : ∀ line ∈ lines, config.resolve line.text = .ok (some line.rule) ∧
      ClassName.place line.text = line.place)
    (hclasses : ∀ line ∈ lines, Markup.IsClass line.text.toList)
    (htexts : (lines.map RuleSet.Line.text).Perm (tree.texts paths)) (layout : Css.Layout) :
    (ofFiles tree config layout paths).css =
      Css.StyleSheet.render layout (lines.map RuleSet.Line.rule) := by
  -- a text that is a class mentions that class and no other
  have hmentions : ∀ className,
      className ∈ tree.allMentions paths ↔ className ∈ lines.map RuleSet.Line.text := by
    intro className
    rw [FileTree.mem_allMentions_iff]
    constructor
    · rintro ⟨text, htext, hmem⟩
      obtain ⟨line, hline, rfl⟩ := List.mem_map.1 (htexts.mem_iff.2 htext)
      rw [Markup.classes_of_isClass (hclasses line hline), List.mem_singleton] at hmem
      exact hmem ▸ List.mem_map_of_mem hline
    · intro hmem
      obtain ⟨line, hline, rfl⟩ := List.mem_map.1 hmem
      refine ⟨line.text, htexts.mem_iff.1 hmem, ?_⟩
      rw [Markup.classes_of_isClass (hclasses line hline)]
      exact List.mem_cons_self
  rw [css_ofFiles, RuleSet.css_ofClasses_congr config hmentions,
    RuleSet.css_ofClasses_of_ordered hordered hrules]

/-- A file that is one class comes to the rule of the class. -/
theorem css_ofFiles_of_isClass {tree : FileTree} {config : Config} {paths : List String}
    {className : String} {rule : Css.Rule} {layout : Css.Layout}
    (hclass : Markup.IsClass className.toList) (hrule : config.resolve className = .ok (some rule))
    (htexts : tree.texts paths = [className]) :
    (ofFiles tree config layout paths).css = Css.StyleSheet.render layout [rule] := by
  have hrules : ∀ line ∈ [(⟨ClassName.place className, className, rule⟩ : RuleSet.Line)],
      config.resolve line.text = .ok (some line.rule) ∧
        ClassName.place line.text = line.place := by
    intro line hline
    obtain rfl := List.mem_singleton.1 hline
    exact ⟨hrule, rfl⟩
  refine css_ofFiles_of_ordered (List.pairwise_singleton _ _) hrules ?_ ?_ layout
  · intro line hline
    obtain rfl := List.mem_singleton.1 hline
    exact hclass
  · rw [htexts]
    exact .refl _

/-- **Files with the same texts come to the same style sheet**, whichever they are,
in whatever order, and whatever else there is that is no text. -/
theorem sameSheet_of_texts {tree tree' : FileTree} {paths paths' : List String}
    (h : ∀ text, text ∈ tree'.texts paths' ↔ text ∈ tree.texts paths)
    (config : Config) (layout : Css.Layout) :
    SameSheet (ofFiles tree' config layout paths') (ofFiles tree config layout paths) := by
  have hsame : ∀ className,
      className ∈ tree'.allMentions paths' ↔ className ∈ tree.allMentions paths := by
    intro className
    simp only [FileTree.mem_allMentions_iff, h]
  have hlines := RuleSet.lines_ofClasses_congr config hsame
  constructor
  · rw [css_ofFiles, css_ofFiles, RuleSet.css_eq_render, RuleSet.css_eq_render, hlines]
  · rw [classes_ofFiles, classes_ofFiles, hlines]
  · have hfinset : (tree'.allMentions paths').toFinset = (tree.allMentions paths).toFinset := by
      ext className
      rw [List.mem_toFinset, List.mem_toFinset, hsame]
    rw [candidates_ofFiles, candidates_ofFiles, hfinset]

/-- **Files come to the style sheet of their joined texts.** -/
theorem ofFiles_eq_of_join {tree : FileTree} {paths texts : List String} {mark : Char}
    (htexts : texts.Perm (tree.texts paths)) (hmark : Markup.isDelimiter mark = true)
    (config : Config) (layout : Css.Layout) :
    let text := String.intercalate (String.singleton mark) texts
    let generation := ofFiles tree config layout paths
    generation.css = Markup.css config layout text ∧
      generation.candidates = (Markup.classes text).toFinset.card ∧
      ∃ lines, RuleSet.IsListing config (Markup.classes text) lines ∧
        generation.css = Css.StyleSheet.render layout (lines.map RuleSet.Line.rule) ∧
        generation.classes = lines.length := by
  intro text generation
  have hsame := FileTree.mem_allMentions_iff_mem_classes htexts hmark
  have hlines := RuleSet.lines_ofClasses_congr config hsame
  have hcss : generation.css =
      Css.StyleSheet.render layout
        ((RuleSet.ofClasses config (Markup.classes text)).lines.map RuleSet.Line.rule) := by
    rw [css_ofFiles, RuleSet.css_eq_render, hlines]
  refine ⟨?_, ?_, _, (RuleSet.collects_ofClasses config (Markup.classes text)).isListing, hcss, ?_⟩
  · rw [hcss, ← RuleSet.css_eq_render]
    rfl
  · have hfinset : (tree.allMentions paths).toFinset = (Markup.classes text).toFinset := by
      ext className
      rw [List.mem_toFinset, List.mem_toFinset, hsame]
    rw [candidates_ofFiles, hfinset]
  · rw [classes_ofFiles, hlines]

end Generation

/-! ## §3. Requests. -/

/-- A text of blanks has no style sheet. -/
theorem Markup.css_of_isAllBlank {text : String} (h : isAllBlank text.toList = true)
    (config : Config) (layout : Css.Layout) : Markup.css config layout text = "" := by
  have hlines : (RuleSet.ofClasses config []).lines = [] := by
    apply List.length_eq_zero_iff.1
    rw [← RuleSet.size_eq_length_lines]
    rfl
  unfold Markup.css
  rw [Markup.classes_of_isAllBlank h]
  show (RuleSet.ofClasses config []).css layout = ""
  rw [RuleSet.css_eq_render, hlines]
  cases layout <;> rfl

/-- Without anything but blanks the pipe says nothing, which is what the text comes
to anyway. -/
theorem PipeRequest.css_pipe (request : PipeRequest) (config : Config) (text : String) :
    (request.pipe config text).css = Markup.css config request.layout text := by
  unfold PipeRequest.pipe
  by_cases hblank : isAllBlank text.toList = true
  · rw [if_pos hblank, Markup.css_of_isAllBlank hblank]
  · rw [if_neg hblank]

theorem Program.pipe_ofText {tree : FileTree} {config : Config} {request : PipeRequest}
    (hconfig : tree.config request.config = .ok config) (text : String) :
    Program.pipe tree request (Bytes.ofText text) =
      Program.printing tree (request.pipe config text).css (request.pipe config text).warnings := by
  unfold Program.pipe PipeRequest.run
  rw [hconfig, Bytes.text?_ofText]
  rfl

namespace GenerationRequest

/-- What a request that is accepted finds: its configuration and at least one file. -/
structure Finds (request : GenerationRequest) (tree : FileTree) (config : Config)
    (paths : List String) : Prop where
  accepted : request.check = .ok ()
  config_eq : tree.config request.config = .ok config
  paths_eq : tree.collect request.inputs request.excludes = .ok paths
  paths_ne : paths ≠ []

theorem Finds.prepare_eq {request : GenerationRequest} {tree : FileTree} {config : Config}
    {paths : List String} (h : request.Finds tree config paths) :
    request.prepare tree = .ok (.ofFiles tree config request.layout paths) := by
  unfold prepare
  rw [h.accepted, h.config_eq, h.paths_eq]
  exact if_neg h.paths_ne

/-- Why the style sheet of a request could not be written, if it could not. -/
def writeFailure? (request : GenerationRequest) (tree : FileTree) (generation : Generation)
    (faults : FileStep.Faults) : Option Failure :=
  if request.dryRun then none
  else (write tree request.output (Bytes.ofText generation.css) faults).2

theorem Finds.result_eq {request : GenerationRequest} {tree : FileTree} {config : Config}
    {paths : List String} (h : request.Finds tree config paths) (faults : FileStep.Faults) :
    (request.run tree faults).result =
      match request.writeFailure? tree (.ofFiles tree config request.layout paths) faults with
      | none => .ok (.ofFiles tree config request.layout paths)
      | some failure => .error failure := by
  unfold run writeFailure?
  rw [h.prepare_eq]
  generalize Generation.ofFiles tree config request.layout paths = generation
  by_cases hdry : request.dryRun = true
  · simp only [hdry, if_true]
  · simp only [hdry, if_false, Bool.false_eq_true]
    rcases write tree request.output (Bytes.ofText generation.css) faults with
      ⟨after, _ | failure⟩ <;> rfl

/-- **Files, standard input and text give one style sheet.**  A request that finds
files comes to their generation, unless it cannot be written; and reading its style
sheet finds as many rules as are counted.  It is the style sheet of the joined texts,
in any order and with any delimiter, which the pipe prints for them too; files that
are no texts have no part in it. -/
theorem run_agrees_with_pipe {request : GenerationRequest} {tree : FileTree} {config : Config}
    {paths : List String} (h : request.Finds tree config paths) (faults : FileStep.Faults) :
    let generation := Generation.ofFiles tree config request.layout paths
    ((request.run tree faults).result =
      match request.writeFailure? tree generation faults with
      | none => .ok generation
      | some failure => .error failure) ∧
    (Css.StyleSheet.read generation.css).map List.length = some generation.classes ∧
    (∀ (texts : List String) (mark : Char), texts.Perm (tree.texts paths) →
      Markup.isDelimiter mark = true →
      let text := String.intercalate (String.singleton mark) texts
      let piped := Program.pipe tree ⟨request.config, request.layout⟩ (Bytes.ofText text)
      generation.css = Markup.css config request.layout text ∧
      piped.code = 0 ∧ piped.output = generation.css ∧
      (isAllBlank text.toList = true → piped.output = "") ∧
      generation.candidates = (Markup.classes text).toFinset.card ∧
      ∃ lines, RuleSet.IsListing config (Markup.classes text) lines ∧
        generation.css = Css.StyleSheet.render request.layout (lines.map RuleSet.Line.rule) ∧
        generation.classes = lines.length) ∧
    (∀ (tree' : FileTree) (paths' : List String),
      (∀ text, text ∈ tree'.texts paths' ↔ text ∈ tree.texts paths) →
        Generation.SameSheet (.ofFiles tree' config request.layout paths') generation) := by
  intro generation
  refine ⟨h.result_eq faults, Generation.length_read_css tree config request.layout paths, ?_, ?_⟩
  · -- the pipe prints the style sheet of its text, blanks included
    intro texts mark htexts hmark text piped
    obtain ⟨hcss, hcandidates, hlines⟩ :=
      Generation.ofFiles_eq_of_join htexts hmark config request.layout
    have hpiped : piped = _ := Program.pipe_ofText h.config_eq text
    have houtput : piped.output = generation.css := by
      rw [hpiped, hcss]
      exact PipeRequest.css_pipe _ config text
    refine ⟨hcss, by rw [hpiped]; rfl, houtput, ?_, hcandidates, hlines⟩
    intro hblank
    rw [houtput, hcss, Markup.css_of_isAllBlank hblank]
  · -- files enter only with their texts
    intro tree' paths' hsame
    exact Generation.sameSheet_of_texts hsame config request.layout

/-- Two texts and an image, found by absolute paths in one order and piped in the
other. -/
theorem run_agrees_with_pipe_image_skipped :
    let padding := "fluid-p-[768px_1px,1280px_2px]"
    let margin := "fluid-m-[768px_1px,1280px_2px]"
    let tree := FileTree.empty ["work"]
      |>.put ["site"] .directory
      |>.put ["site", "a.html"] (.file (Bytes.ofText padding))
      |>.put ["site", "b.html"] (.file (Bytes.ofText margin))
      |>.put ["site", "c.png"] (.file [0xff, 0xfe])
    let paths := ["/site/a.html", "/site/b.html", "/site/c.png"]
    let request : GenerationRequest :=
      { inputs := paths, output := "/site/all.css", layout := .minified, jobs := some 2 }
    let sheet :=
      r".fluid-m-\[768px_1px\2c 1280px_2px\]{margin:clamp(1px, 0.19531vw - 0.5px, 2px)}" ++
      r".fluid-p-\[768px_1px\2c 1280px_2px\]{padding:clamp(1px, 0.19531vw - 0.5px, 2px)}"
    request.Finds tree {} paths ∧
      (∃ generation, (request.run tree).result = .ok generation ∧ generation.css = sheet ∧
        generation.classes = 2) ∧
      (Css.StyleSheet.read sheet).map List.length = some 2 ∧
      (Program.pipe tree ⟨none, .minified⟩ (Bytes.ofText (margin ++ "\n" ++ padding))).output =
        sheet := by
  intro padding margin tree paths request sheet
  have hfinds : request.Finds tree {} paths :=
    ⟨rfl, rfl, by decide +kernel, by decide⟩
  have htexts : tree.texts paths = [padding, margin] := by decide +kernel
  have hperm : [margin, padding].Perm (tree.texts paths) := by
    rw [htexts]
    exact List.Perm.swap _ _ _
  -- both files are one class, and the rule of the second comes first
  let lines : List RuleSet.Line :=
    [⟨ClassName.place margin, margin, ⟨r".fluid-m-\[768px_1px\2c 1280px_2px\]",
      [⟨"margin", "clamp(1px, 0.19531vw - 0.5px, 2px)"⟩]⟩⟩,
    ⟨ClassName.place padding, padding, ⟨r".fluid-p-\[768px_1px\2c 1280px_2px\]",
      [⟨"padding", "clamp(1px, 0.19531vw - 0.5px, 2px)"⟩]⟩⟩]
  have hordered : lines.Pairwise RuleSet.Line.Before :=
    List.pairwise_pair.2 (.inl (by decide +kernel))
  have hrules : ∀ line ∈ lines, Config.resolve {} line.text = .ok (some line.rule) ∧
      ClassName.place line.text = line.place := by
    decide +kernel
  have hclasses : ∀ line ∈ lines, Markup.IsClass line.text.toList := by decide +kernel
  have hsheet : (Generation.ofFiles tree {} .minified paths).css = sheet := by
    rw [Generation.css_ofFiles_of_ordered hordered hrules hclasses hperm]
    decide +kernel
  have hwritten : request.writeFailure? tree (.ofFiles tree {} .minified paths) [] = none := by
    unfold writeFailure?
    rw [hsheet]
    decide +kernel
  obtain ⟨hresult, hread, hjoined, -⟩ := run_agrees_with_pipe hfinds []
  obtain ⟨-, -, houtput, -⟩ := hjoined _ '\n' hperm (by decide)
  have htwo : (Css.StyleSheet.read sheet).map List.length = some 2 := by decide +kernel
  have hcount : (Generation.ofFiles tree {} .minified paths).classes = 2 := by
    rw [hsheet, htwo] at hread
    exact (Option.some.inj hread).symm
  rw [hwritten] at hresult
  have htext : margin ++ "\n" ++ padding =
      String.intercalate (String.singleton '\n') [margin, padding] := by decide +kernel
  rw [htext]
  exact ⟨hfinds, ⟨_, hresult, hsheet, hcount⟩, htwo, houtput.trans hsheet⟩

end GenerationRequest

end FluidClamp
