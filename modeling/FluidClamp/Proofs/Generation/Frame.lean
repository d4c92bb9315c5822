/-
  FluidClamp.Proofs.Generation.Frame
  ──────────────────────────────────
  **WHICH FILES A GENERATION TOUCHES.**

  The style sheet is written to a temporary file, which then takes the place of the
  output.  Whatever tree it starts from, and on whatever system, a generation that
  succeeds leaves

      at the output        the style sheet
      at the temporary     nothing, if it is not the output itself
      directories          all that there were, and those along the output's path
      everywhere else      every file as it was, and no other

  (`Leaves`).  The temporary file has the output's name with another extension, and
  nothing looks whether a file of that name is there already.  So every file but the
  output is kept exactly if none was: a file of the temporary name is lost.
-/
import FluidClamp.Proofs.Files.Steps
import FluidClamp.Proofs.Generation.Agreement

namespace FluidClamp.GenerationRequest

open FileTree

variable {tree after : FileTree} {path : String} {content : Bytes}

/-! ## §1. Writing a file. -/

/-- **The steps that write a file** change the file and the temporary one. -/
theorem exists_of_runAll_writeSteps
    (h : FileStep.runAll tree (writeSteps path content) = (after, true)) :
    ∃ output temporary, tree.locate? path = some output ∧
      tree.locate? (temporaryPath path) = some temporary ∧
      tree.entry? output ≠ some .directory ∧ tree.entry? temporary ≠ some .directory ∧
      after.here = tree.here ∧
      ∀ location, after.entry? location =
        if location = output then some (.file content)
        else if location = temporary then none
        else tree.entry? location := by
  -- create, fill, store and rename
  obtain ⟨created, hcreate, h⟩ := FileStep.runAll_cons_eq h
  obtain ⟨filled, hfill, h⟩ := FileStep.runAll_cons_eq h
  obtain ⟨stored, hstore, h⟩ := FileStep.runAll_cons_eq h
  obtain ⟨moved, hmove, h⟩ := FileStep.runAll_cons_eq h
  obtain rfl : moved = after := (Prod.mk.inj h).1
  obtain rfl : filled = stored := (Prod.mk.inj hstore).1
  obtain ⟨temporary, hplace, hfree, hsame, hfilled⟩ := FileStep.exists_filled hcreate hfill
  obtain ⟨source, output, bytes, hsource, houtput, hbytes, hnodir, rfl⟩ :=
    FileStep.exists_of_runRename hmove
  -- what is moved is what was filled
  rw [hsame.locate?_eq, hplace] at hsource
  obtain rfl := Option.some.inj hsource
  rw [hfilled, if_pos rfl] at hbytes
  obtain rfl : content = bytes := Entry.file.inj (Option.some.inj hbytes)
  have houtputFree : tree.entry? output ≠ some .directory := by
    rwa [ne_eq, ← isDirectoryAt_iff, hsame.isDirectoryAt_eq output, isDirectoryAt_iff] at hnodir
  have hfilledFree : filled.entry? temporary ≠ some .directory := by
    rw [hfilled, if_pos rfl]
    exact nofun
  -- taking the temporary file away does not change the way to the working directory
  have houtputBelow : (filled.remove temporary).isAbove output = false :=
    show filled.isAbove output = false from isAbove_eq_false hnodir
  refine ⟨output, temporary, hsame.locate?_eq path ▸ houtput, hplace, houtputFree, hfree,
    hsame.here_eq, ?_⟩
  intro location
  rw [entry?_put houtputBelow, entry?_remove (isAbove_eq_false hfilledFree), hfilled]
  split
  · rfl
  · split <;> rfl

/-- Neither place was a directory, so no directory is lost, and paths lead where they
led. -/
theorem sameDirectories_of_runAll_writeSteps
    (h : FileStep.runAll tree (writeSteps path content) = (after, true)) :
    SameDirectories tree after := by
  obtain ⟨output, temporary, -, -, houtputFree, htemporaryFree, hhere, hafter⟩ :=
    exists_of_runAll_writeSteps h
  refine ⟨hhere, ?_⟩
  intro location
  rw [Bool.eq_iff_iff, isDirectoryAt_iff, isDirectoryAt_iff, hafter]
  split
  · next heq => exact ⟨nofun, fun hdirectory => absurd (heq ▸ hdirectory) houtputFree⟩
  · split
    · next heq => exact ⟨nofun, fun hdirectory => absurd (heq ▸ hdirectory) htemporaryFree⟩
    · rfl

theorem exists_of_write {faults : FileStep.Faults}
    (h : write tree path content faults = (after, none)) :
    ∃ made, tree.makeDirectories tree.here (Path.parentComponents path) = (made, true) ∧
      FileStep.runAll made (writeSteps path content) = (after, true) := by
  unfold write at h
  split at h
  · exact nomatch h
  · next made hmade =>
    split at h
    · exact nomatch h
    · next written hwritten =>
      obtain rfl := (Prod.mk.inj h).1
      exact ⟨made, (FileStep.eq_of_attempt hmade).2, FileStep.runAll_of_true hwritten⟩

/-- **What is left of a tree** once a file has been written over a temporary one. -/
structure Leaves (tree after : FileTree) (path : String) (content : Bytes)
    (output temporary : Location) : Prop where
  here_eq : after.here = tree.here
  output_eq : after.locate? path = some output
  temporary_eq : after.locate? (temporaryPath path) = some temporary
  written : after.entry? output = some (.file content)
  removed : temporary ≠ output → after.entry? temporary = none
  files : ∀ location, location ≠ output → location ≠ temporary → ∀ content',
    after.entry? location = some (.file content') ↔ tree.entry? location = some (.file content')
  directories : ∀ location, tree.entry? location = some .directory →
    after.entry? location = some .directory
  made : ∀ location, after.entry? location = some .directory →
    tree.entry? location = some .directory ∨
      tree.entry? location = none ∧ ∃ front, front <+: Path.parentComponents path ∧
        after.walk tree.here front = some location

theorem exists_leaves_of_write {faults : FileStep.Faults}
    (h : write tree path content faults = (after, none)) :
    ∃ output temporary, Leaves tree after path content output temporary := by
  -- first directories are made, which changes no file; then the steps keep all directories
  obtain ⟨made, hmade, hsteps⟩ := exists_of_write h
  obtain ⟨output, temporary, houtput, htemporary, -, -, -, hafter⟩ :=
    exists_of_runAll_writeSteps hsteps
  have hadds := addsDirectories_makeDirectories tree tree.here (Path.parentComponents path)
  have halong := makesAlong_makeDirectories tree (Path.parentComponents path)
  rw [hmade] at hadds halong
  have hsame := sameDirectories_of_runAll_writeSteps hsteps
  have halongAfter := halong.of_sameDirectories hsame
  refine ⟨output, temporary, ?_⟩
  constructor
  · exact halongAfter.here_eq
  · rw [hsame.locate?_eq, houtput]
  · rw [hsame.locate?_eq, htemporary]
  · rw [hafter, if_pos rfl]
  · intro hne
    rw [hafter, if_neg hne, if_pos rfl]
  · intro location hne hne' content'
    rw [hafter, if_neg hne, if_neg hne', hadds.entry?_eq_file_iff]
  · exact halongAfter.directories
  · exact halongAfter.made

/-- Every file but the one that was written is kept exactly if there was none in the
place of the temporary one. -/
theorem Leaves.keeps_iff {output temporary : Location}
    (h : Leaves tree after path content output temporary) :
    (∀ location content', location ≠ output → tree.entry? location = some (.file content') →
      after.entry? location = some (.file content')) ↔
        temporary = output ∨ ∀ content', tree.entry? temporary ≠ some (.file content') := by
  constructor
  · intro hkeeps
    by_cases hsame : temporary = output
    · exact .inl hsame
    · refine .inr ?_
      intro content' hthere
      have hkept := hkeeps temporary content' hsame hthere
      rw [h.removed hsame] at hkept
      exact nomatch hkept
  · intro hnone location content' hne hthere
    by_cases htemporary : location = temporary
    · subst htemporary
      rcases hnone with hsame | hnone
      · exact absurd hsame hne
      · exact absurd hthere (hnone content')
    · exact (h.files location hne htemporary content').2 hthere

/-! ## §2. Runs. -/

variable {request : GenerationRequest} {generation : Generation} {faults : FileStep.Faults}

/-- Without writing, a run comes to what it prepares. -/
theorem run_of_dryRun (h : request.dryRun = true) (tree : FileTree) (faults : FileStep.Faults) :
    (request.run tree faults).tree = tree ∧
      (request.run tree faults).result = request.prepare tree := by
  unfold run
  cases request.prepare tree with
  | error failure => exact ⟨rfl, rfl⟩
  | ok generation =>
    simp only [h, if_true]
    exact ⟨trivial, trivial⟩

theorem run_of_prepare_eq_error {failure : Failure} (h : request.prepare tree = .error failure) :
    (request.run tree faults).result = .error failure := by
  unfold run
  rw [h]

/-- A run that writes comes to what it prepares, unless it fails to write. -/
theorem run_of_write_eq (hwet : request.dryRun = false)
    (hprepare : request.prepare tree = .ok generation) {failed : Option Failure}
    (hwrite : write tree request.output (Bytes.ofText generation.css) faults = (after, failed)) :
    (request.run tree faults).tree = after ∧
      (request.run tree faults).result =
        match failed with
        | none => .ok generation
        | some failure => .error failure := by
  unfold run
  rw [hprepare]
  simp only [hwet, Bool.false_eq_true, if_false, hwrite]
  cases failed with
  | none => exact ⟨rfl, rfl⟩
  | some failure => exact ⟨rfl, rfl⟩

/-- So it is with a request that finds files, once their style sheet is known. -/
theorem Finds.run_eq {config : Config} {paths : List String} {sheet : String}
    (h : request.Finds tree config paths) (hwet : request.dryRun = false)
    (hsheet : (Generation.ofFiles tree config request.layout paths).css = sheet)
    {failed : Option Failure}
    (hwrite : write tree request.output (Bytes.ofText sheet) faults = (after, failed)) :
    (request.run tree faults).tree = after ∧
      (request.run tree faults).result =
        match failed with
        | none => .ok (.ofFiles tree config request.layout paths)
        | some failure => .error failure := by
  subst hsheet
  cases failed with
  | none => exact run_of_write_eq hwet h.prepare_eq hwrite
  | some failure => exact run_of_write_eq hwet h.prepare_eq hwrite

/-- How writing fails. -/
theorem write_failure {failure : Failure}
    (h : (write tree path content faults).2 = some failure) :
    failure = .fileSystem ∨ failure = .unwritableOutput path := by
  unfold write at h
  split at h
  · exact .inl (Option.some.inj h).symm
  · split at h
    · exact .inr (Option.some.inj h).symm
    · exact nomatch h

/-- A run that succeeds in writing has prepared the style sheet and written it. -/
theorem exists_of_run (hwet : request.dryRun = false)
    (h : (request.run tree faults).result = .ok generation) :
    request.prepare tree = .ok generation ∧
      write tree request.output (Bytes.ofText generation.css) faults =
        ((request.run tree faults).tree, none) := by
  cases hprepare : request.prepare tree with
  | error failure =>
    rw [run_of_prepare_eq_error hprepare] at h
    exact nomatch h
  | ok prepared =>
    rcases hwrite : write tree request.output (Bytes.ofText prepared.css) faults with
      ⟨after, _ | failure⟩
    · obtain ⟨rfl, hresult⟩ := run_of_write_eq hwet hprepare hwrite
      obtain rfl : prepared = generation := Except.ok.inj (hresult.symm.trans h)
      exact ⟨rfl, hwrite⟩
    · have hresult := (run_of_write_eq hwet hprepare hwrite).2
      exact nomatch hresult.symm.trans h

/-- **What a generation touches**, on any system.  If it succeeds and is not dry, the
output holds the style sheet, the place of the temporary file is empty, missing
directories along the output's path have been made, and every other file is as it
was; so every file but the output is kept exactly if none had the name of the
temporary file.  A dry run leaves the tree as it is, and comes to what the same run
comes to that is not dry, unless that one fails to write. -/
theorem run_touches_temporary (request : GenerationRequest) (tree : FileTree)
    (faults : FileStep.Faults) :
    (request.dryRun = false → ∀ generation, (request.run tree faults).result = .ok generation →
      ∃ output temporary,
        Leaves tree (request.run tree faults).tree request.output (Bytes.ofText generation.css)
          output temporary ∧
        ((∀ location content, location ≠ output → tree.entry? location = some (.file content) →
          entry? (request.run tree faults).tree location = some (.file content)) ↔
            temporary = output ∨ ∀ content, tree.entry? temporary ≠ some (.file content))) ∧
    let dry := ({ request with dryRun := true } : GenerationRequest).run tree faults
    dry.tree = tree ∧
      (∀ generation, (request.run tree faults).result = .ok generation →
        dry.result = .ok generation) ∧
      (∀ failure, dry.result = .error failure →
        (request.run tree faults).result = .error failure) ∧
      ∀ generation, dry.result = .ok generation →
        (request.run tree faults).result = .ok generation ∨
        (request.run tree faults).result = .error .fileSystem ∨
        (request.run tree faults).result = .error (.unwritableOutput request.output) := by
  have hrequest : ({ request with dryRun := true } : GenerationRequest).dryRun = true := rfl
  -- preparing does not look whether the run is dry
  have hsame : ({ request with dryRun := true } : GenerationRequest).prepare tree =
      request.prepare tree := rfl
  have hdry := run_of_dryRun hrequest tree faults
  rw [hsame] at hdry
  refine ⟨?_, hdry.1, ?_, ?_, ?_⟩
  · -- success means that every step was carried out, whatever the system
    intro hwet generation hresult
    obtain ⟨-, hwrite⟩ := exists_of_run hwet hresult
    obtain ⟨output, temporary, hleaves⟩ := exists_leaves_of_write hwrite
    exact ⟨output, temporary, hleaves, hleaves.keeps_iff⟩
  · intro generation hresult
    rw [hdry.2]
    cases hwet : request.dryRun with
    | true => rw [← (run_of_dryRun hwet tree faults).2, hresult]
    | false => exact (exists_of_run hwet hresult).1
  · -- a dry run fails only while it prepares, which the other does as well
    intro failure hfailure
    exact run_of_prepare_eq_error (hdry.2.symm.trans hfailure)
  · intro generation hgeneration
    have hprepare : request.prepare tree = .ok generation := hdry.2.symm.trans hgeneration
    cases hwet : request.dryRun with
    | true => exact .inl ((run_of_dryRun hwet tree faults).2.trans hprepare)
    | false =>
      rcases hwrite : write tree request.output (Bytes.ofText generation.css) faults with
        ⟨after, _ | failure⟩
      · exact .inl (run_of_write_eq hwet hprepare hwrite).2
      · have hresult := (run_of_write_eq hwet hprepare hwrite).2
        rcases write_failure (congrArg Prod.snd hwrite) with rfl | rfl
        · exact .inr (.inl hresult)
        · exact .inr (.inr hresult)

/-- A file that has the name of the temporary file is lost. -/
theorem run_touches_temporary_all_tmp :
    let content := "fluid-p-[768px_1px,1280px_2px]"
    let sheet :=
      r".fluid-p-\[768px_1px\2c 1280px_2px\]{padding:clamp(1px, 0.19531vw - 0.5px, 2px)}"
    let tree := (FileTree.empty.put ["a.html"] (.file (Bytes.ofText content))).put
      ["all.tmp"] (.file (Bytes.ofText "keep me"))
    let request : GenerationRequest :=
      { inputs := ["a.html"], output := "all.css", layout := .minified }
    let outcome := request.run tree
    (∃ generation, outcome.result = .ok generation ∧ generation.css = sheet) ∧
      outcome.tree.entry? ["all.css"] = some (.file (Bytes.ofText sheet)) ∧
      outcome.tree.entry? ["a.html"] = some (.file (Bytes.ofText content)) ∧
      tree.entry? ["all.tmp"] = some (.file (Bytes.ofText "keep me")) ∧
      outcome.tree.entry? ["all.tmp"] = none ∧
      (({ request with dryRun := true } : GenerationRequest).run tree).tree = tree := by
  intro content sheet tree request outcome
  -- the style sheet is computed from the one rule, and the rest of the run is not computed:
  -- what it leaves is what the theorem says
  have hfinds : request.Finds tree {} ["a.html"] :=
    ⟨rfl, rfl, by decide +kernel, by decide⟩
  have hclass : Markup.IsClass content.toList := by decide +kernel
  have hrule : Config.resolve {} content = .ok (some ⟨r".fluid-p-\[768px_1px\2c 1280px_2px\]",
      [⟨"padding", "clamp(1px, 0.19531vw - 0.5px, 2px)"⟩]⟩) := by decide +kernel
  have htexts : tree.texts ["a.html"] = [content] := by decide +kernel
  have hsheet : (Generation.ofFiles tree {} .minified ["a.html"]).css = sheet := by
    rw [Generation.css_ofFiles_of_isClass hclass hrule htexts]
    decide +kernel
  have hwrite : ∃ after, write tree "all.css" (Bytes.ofText sheet) = (after, none) ∧
      after.locate? "all.css" = some ["all.css"] ∧ after.locate? "all.tmp" = some ["all.tmp"] := by
    refine ⟨_, Prod.ext rfl ?_, ?_, ?_⟩ <;> decide +kernel
  obtain ⟨after, hwrite, houtput, htemporary⟩ := hwrite
  obtain ⟨htree, hresult⟩ := hfinds.run_eq rfl hsheet hwrite
  obtain ⟨htouches, hdry, -⟩ := run_touches_temporary request tree []
  obtain ⟨output, temporary, hleaves, -⟩ := htouches rfl _ hresult
  have hname : temporaryPath request.output = "all.tmp" := by decide +kernel
  have hplaces : output = ["all.css"] ∧ temporary = ["all.tmp"] := by
    have hfirst := hleaves.output_eq
    have hsecond := hleaves.temporary_eq
    rw [htree] at hfirst hsecond
    rw [hname] at hsecond
    exact ⟨Option.some.inj (hfirst.symm.trans houtput),
      Option.some.inj (hsecond.symm.trans htemporary)⟩
  obtain ⟨rfl, rfl⟩ := hplaces
  have hpage := (hleaves.files ["a.html"] (by decide) (by decide) (Bytes.ofText content)).2
    (by decide +kernel)
  refine ⟨⟨_, hresult, hsheet⟩, hsheet ▸ hleaves.written, hpage, by decide +kernel, ?_, hdry⟩
  exact hleaves.removed (by decide)

end FluidClamp.GenerationRequest
