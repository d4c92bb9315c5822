/-
  FluidClamp.Proofs.Generation.Remains
  ────────────────────────────────────
  **WHAT A FAILED GENERATION LEAVES BEHIND.**

  A generation that fails before it writes leaves the tree as it is.  One that fails
  to write has made directories, and then perhaps the temporary file, which nothing
  takes away again.  Wherever its steps stop, and whether the tree or the system is
  the reason, no file but the temporary one is changed, and that one holds a
  beginning of the style sheet (`Abandons`):

      directories, or the temporary file     every file is as it was
      cannot be made
      the file cannot be filled              it holds what was written
      it cannot be stored, or moved          it holds the style sheet

  So the file at the output is kept, unless the output has the extension `tmp` and is
  its own temporary file.  Where the system carries every step out and the tree alone
  is the reason, the temporary file is always filled, the output is always kept, and
  all files are as they were unless the move fails (`Refuses`).
-/
import FluidClamp.Proofs.Files.Interruption
import FluidClamp.Proofs.Files.Names
import FluidClamp.Proofs.Generation.Frame

namespace FluidClamp

namespace FileTree

/-! ## §1. Files of two trees. -/

variable {tree middle after : FileTree}

/-- Both trees have the same files, with the same contents. -/
def SameFiles (tree after : FileTree) : Prop :=
  ∀ location content,
    after.entry? location = some (.file content) ↔ tree.entry? location = some (.file content)

theorem SameFiles.refl (tree : FileTree) : SameFiles tree tree := fun _ _ => Iff.rfl

theorem AddsDirectories.sameFiles (h : AddsDirectories tree after) : SameFiles tree after :=
  fun _ _ => h.entry?_eq_file_iff

/-- **A file was put** where a path leads, and nothing else is changed. -/
structure PutsFile (tree after : FileTree) (path : String) (bytes : Bytes)
    (location : Location) : Prop where
  locate?_eq : tree.locate? path = some location
  sameDirectories : SameDirectories tree after
  entry?_eq : ∀ other, after.entry? other =
    if other = location then some (.file bytes) else tree.entry? other

/-- A file that was made is empty. -/
theorem exists_putsFile_of_runCreate {path : String}
    (h : FileStep.runCreate tree path = (after, true)) :
    ∃ location, PutsFile tree after path [] location := by
  obtain ⟨location, hplace, hfree, rfl⟩ := FileStep.exists_of_runCreate h
  exact ⟨location, hplace, FileStep.sameDirectories_put hfree [],
    fun other => entry?_put (isAbove_eq_false hfree) _ other⟩

theorem exists_putsFile_of_runAppend {created : FileTree} {path : String} {bytes : Bytes}
    (hcreate : FileStep.runCreate tree path = (created, true))
    (hfill : FileStep.runAppend created path bytes = (after, true)) :
    ∃ location, PutsFile tree after path bytes location := by
  obtain ⟨location, hplace, -, hsame, hfilled⟩ := FileStep.exists_filled hcreate hfill
  exact ⟨location, hplace, hsame, hfilled⟩

/-- What was made can be filled. -/
theorem runAppend_of_runCreate {created : FileTree} {path : String} (bytes : Bytes)
    (h : FileStep.runCreate tree path = (created, true)) :
    ∃ filled, FileStep.runAppend created path bytes = (filled, true) := by
  obtain ⟨location, hput⟩ := exists_putsFile_of_runCreate h
  have hplace : created.locate? path = some location := by
    rw [hput.sameDirectories.locate?_eq, hput.locate?_eq]
  have hempty : created.entry? location = some (.file []) := by
    rw [hput.entry?_eq, if_pos rfl]
  unfold FileStep.runAppend
  simp only [hplace, hempty]
  exact ⟨_, rfl⟩

end FileTree

namespace GenerationRequest

open FileTree

variable {tree made after : FileTree} {path : String} {content : Bytes}

/-! ## §2. Steps that stop. -/

/-- **Every file is as it was but the temporary one**, which holds some bytes. -/
structure LeavesTemporary (tree after : FileTree) (path : String) (bytes : Bytes)
    (temporary : Location) : Prop where
  temporary_eq : after.locate? (temporaryPath path) = some temporary
  left : after.entry? temporary = some (.file bytes)
  files : ∀ location, location ≠ temporary → ∀ content,
    after.entry? location = some (.file content) ↔ tree.entry? location = some (.file content)

theorem leavesTemporary_of_putsFile {bytes : Bytes} {temporary : Location}
    (hsame : SameFiles tree made)
    (hput : PutsFile made after (temporaryPath path) bytes temporary) :
    LeavesTemporary tree after path bytes temporary := by
  constructor
  · rw [hput.sameDirectories.locate?_eq, hput.locate?_eq]
  · rw [hput.entry?_eq, if_pos rfl]
  · intro location hne content
    rw [hput.entry?_eq, if_neg hne]
    exact hsame location content

/-- So all files are as they were exactly if the temporary one was there and held the
same. -/
theorem LeavesTemporary.sameFiles_iff {bytes : Bytes} {temporary : Location}
    (h : LeavesTemporary tree after path bytes temporary) :
    SameFiles tree after ↔ ∀ place, after.locate? (temporaryPath path) = some place →
      after.isDirectoryAt place = true ∨ tree.entry? place = some (.file bytes) := by
  constructor
  · intro hsame place hplace
    rw [h.temporary_eq] at hplace
    obtain rfl := Option.some.inj hplace
    exact .inr ((hsame temporary bytes).1 h.left)
  · intro hplaces location content
    by_cases hne : location = temporary
    · subst hne
      rcases hplaces location h.temporary_eq with hdirectory | hthere
      · rw [isDirectoryAt_iff, h.left] at hdirectory
        exact nomatch hdirectory
      · rw [h.left, hthere]
    · exact h.files location hne content

/-- The output is another file, unless it has the extension of the temporary one. -/
theorem LeavesTemporary.keeps_output {bytes : Bytes} {temporary : Location}
    (h : LeavesTemporary tree after path bytes temporary)
    (hextension : Path.extension? path ≠ some "tmp") {output : Location}
    (houtput : after.locate? path = some output) (content : Bytes) :
    after.entry? output = some (.file content) ↔ tree.entry? output = some (.file content) := by
  refine h.files output (fun hsame => hextension ?_) content
  have hfree : after.entry? output ≠ some .directory := by
    rw [hsame, h.left]
    exact nofun
  have hslash : ∀ c ∈ "tmp".toList, c ≠ '/' := by decide
  exact (locate?_withExtension_eq_iff (by decide) hslash houtput hfree h.temporary_eq).1 hsame

/-- Where a directory was, no file was put. -/
theorem keeps_of_isDirectoryAt {location : Location} (hfiles : SameFiles tree made)
    (hsame : SameDirectories made after) (hdirectory : made.isDirectoryAt location = true)
    (content : Bytes) :
    after.entry? location = some (.file content) ↔ tree.entry? location = some (.file content) := by
  have hafter := hsame.isDirectoryAt_eq location
  rw [hdirectory, isDirectoryAt_iff] at hafter
  rw [isDirectoryAt_iff] at hdirectory
  rw [← hfiles location content, hafter, hdirectory]

/-- Until the file has its place, only the temporary one is changed. -/
theorem of_stopsIn_writeSteps (h : FileStep.StopsIn made (writeSteps path content) after) :
    after = made ∨ ∃ temporary front, front <+: content ∧
      PutsFile made after (temporaryPath path) front temporary := by
  -- each step but the last leaves a file with the bytes that were written so far
  cases h with
  | before => exact .inl rfl
  | within rest hpart hrun => exact nomatch hpart
  | later hcreate hrest =>
    obtain ⟨temporary, hempty⟩ := exists_putsFile_of_runCreate hcreate
    cases hrest with
    | before => exact .inr ⟨temporary, [], List.nil_prefix, hempty⟩
    | within rest hpart hrun =>
      cases hpart with
      | bytes hfront =>
        obtain ⟨place, hput⟩ := exists_putsFile_of_runAppend hcreate hrun
        exact .inr ⟨place, _, hfront, hput⟩
    | later hfill hrest =>
      obtain ⟨place, hput⟩ := exists_putsFile_of_runAppend hcreate hfill
      have hwhole : content <+: content := List.prefix_refl content
      cases hrest with
      | before => exact .inr ⟨place, content, hwhole, hput⟩
      | within rest hpart hrun => exact nomatch hpart
      | later hstore hrest =>
        obtain rfl := (Prod.mk.inj hstore).1
        cases hrest with
        | before => exact .inr ⟨place, content, hwhole, hput⟩
        | within rest hpart hrun => exact nomatch hpart
        | later hmove hrest => exact nomatch hrest

/-- **What is left of a tree** where writing a file has stopped. -/
structure Abandons (tree after : FileTree) (path : String) (content : Bytes) : Prop where
  along : MakesAlong tree after (Path.parentComponents path)
  files : SameFiles tree after ∨ ∃ temporary front, front <+: content ∧
    LeavesTemporary tree after path front temporary
  output : Path.extension? path ≠ some "tmp" → ∀ output, after.locate? path = some output →
    ∀ content, after.entry? output = some (.file content) ↔
      tree.entry? output = some (.file content)

theorem Abandons.of_sameFiles (halong : MakesAlong tree after (Path.parentComponents path))
    (hsame : SameFiles tree after) : Abandons tree after path content :=
  ⟨halong, .inl hsame, fun _ output _ => hsame output⟩

/-- **Wherever writing a file stops**, directories have been made along its path, and
the temporary file holds a beginning of the content, if it is there. -/
theorem abandons_of_stopsIn
    (h : FileStep.StopsIn tree (directoryStep path :: writeSteps path content) after) :
    Abandons tree after path content := by
  cases h with
  | before => exact .of_sameFiles (.refl tree _) (.refl tree)
  | within rest hpart hrun =>
    cases hpart with
    | @directories front parts hfront =>
      have halong := makesAlong_makeDirectories tree front
      have hadds := addsDirectories_makeDirectories tree tree.here front
      obtain rfl : (tree.makeDirectories tree.here front).1 = after := congrArg Prod.fst hrun
      exact .of_sameFiles (halong.of_prefix hfront) hadds.sameFiles
  | later hmake hrest =>
    have halong := makesAlong_makeDirectories tree (Path.parentComponents path)
    have hadds := addsDirectories_makeDirectories tree tree.here (Path.parentComponents path)
    obtain rfl := congrArg Prod.fst hmake
    rcases of_stopsIn_writeSteps hrest with rfl | ⟨temporary, front, hfront, hput⟩
    · exact .of_sameFiles halong hadds.sameFiles
    · have hleaves := leavesTemporary_of_putsFile hadds.sameFiles hput
      exact ⟨halong.of_sameDirectories hput.sameDirectories,
        .inr ⟨temporary, front, hfront, hleaves⟩,
        fun hextension _ houtput => hleaves.keeps_output hextension houtput⟩

/-! ## §3. Writing that fails. -/

/-- Writing a file is taking its steps. -/
theorem runAll_eq_write (tree : FileTree) (path : String) (content : Bytes)
    (faults : FileStep.Faults) :
    FileStep.runAll tree (directoryStep path :: writeSteps path content) faults =
      ((write tree path content faults).1, (write tree path content faults).2.isNone) := by
  rw [FileStep.runAll]
  unfold write
  split
  · next made hmade =>
    rw [hmade]
    simp only
    rcases FileStep.runAll made (writeSteps path content) faults.tail with ⟨after, _ | _⟩ <;> rfl
  · next stopped hstopped =>
    rw [hstopped]
    rfl

/-- So writing that fails has stopped in the midst of them. -/
theorem stopsIn_of_write {faults : FileStep.Faults} {failure : Failure}
    (h : write tree path content faults = (after, some failure)) :
    FileStep.StopsIn tree (directoryStep path :: writeSteps path content) after := by
  have hsteps := runAll_eq_write tree path content faults
  rw [h] at hsteps
  exact FileStep.stopsIn_of_runAll hsteps

/-- If it was the directories that could not be made, every file is as it was. -/
theorem sameFiles_of_write {faults : FileStep.Faults}
    (h : write tree path content faults = (after, some .fileSystem)) : SameFiles tree after := by
  unfold write at h
  split at h
  · next stopped hstopped =>
    obtain rfl := (Prod.mk.inj h).1
    rcases FileStep.exists_part_of_attempt hstopped with rfl | ⟨done, hpart, hrun⟩
    · exact .refl _
    · cases hpart with
      | @directories front parts hfront =>
        obtain rfl : (tree.makeDirectories tree.here front).1 = stopped := congrArg Prod.fst hrun
        exact (addsDirectories_makeDirectories tree tree.here front).sameFiles
  · split at h
    · exact nomatch (Prod.mk.inj h).2
    · exact nomatch (Prod.mk.inj h).2

/-- How the steps that write a file fail where the system carries them out. -/
theorem of_runAll_writeSteps (h : FileStep.runAll made (writeSteps path content) = (after, false)) :
    (after = made ∧ ∀ temporary, made.locate? (temporaryPath path) = some temporary →
      made.isDirectoryAt temporary = true) ∨
    ∃ temporary, PutsFile made after (temporaryPath path) content temporary ∧
      ∀ output, made.locate? path = some output → made.isDirectoryAt output = true := by
  unfold writeSteps FileStep.runAll at h
  split at h
  · next created hcreate =>
    -- what was made can be filled and stored, so it is the move that fails
    have hcreate : FileStep.runCreate made (temporaryPath path) = (created, true) := hcreate
    obtain ⟨filled, hfill⟩ := runAppend_of_runCreate content hcreate
    obtain ⟨temporary, hput⟩ := exists_putsFile_of_runAppend hcreate hfill
    have hmove : FileStep.runAll filled [.rename (temporaryPath path) path] = (after, false) := by
      rw [FileStep.runAll] at h
      simp only [List.tail_nil, List.headD_nil, FileStep.attempt, FileStep.run, hfill] at h
      exact h
    unfold FileStep.runAll at hmove
    split at hmove
    · exact absurd (Prod.mk.inj hmove).2 Bool.noConfusion
    · next stopped hrename =>
      obtain ⟨rfl, hdirectory⟩ := FileStep.eq_of_runRename hrename
      obtain rfl := (Prod.mk.inj hmove).1
      refine .inr ⟨temporary, hput, ?_⟩
      intro output houtput
      rw [← hput.sameDirectories.isDirectoryAt_eq output]
      apply hdirectory temporary output content
      · rw [hput.sameDirectories.locate?_eq, hput.locate?_eq]
      · rw [hput.sameDirectories.locate?_eq, houtput]
      · rw [hput.entry?_eq, if_pos rfl]
  · next stopped hcreate =>
    obtain rfl := (Prod.mk.inj h).1
    exact .inl (FileStep.eq_of_runCreate hcreate)

/-- **What is left of a tree that refuses a file**, on a system that carries every
step out. -/
structure Refuses (tree after : FileTree) (path : String) (content : Bytes)
    (failure : Failure) : Prop where
  output : ∀ output, after.locate? path = some output → ∀ content,
    after.entry? output = some (.file content) ↔ tree.entry? output = some (.file content)
  files : SameFiles tree after ∨ ∃ temporary, LeavesTemporary tree after path content temporary
  sameFiles_iff : SameFiles tree after ↔ failure = .fileSystem ∨
    ∀ temporary, after.locate? (temporaryPath path) = some temporary →
      after.isDirectoryAt temporary = true ∨ tree.entry? temporary = some (.file content)

theorem refuses_of_write {failure : Failure} (h : write tree path content = (after, some failure)) :
    Refuses tree after path content failure := by
  have hadds := addsDirectories_makeDirectories tree tree.here (Path.parentComponents path)
  unfold write at h
  split at h
  · next stopped hmake =>
    -- the directories cannot be made
    obtain ⟨rfl, hfault⟩ := Prod.mk.inj h
    obtain rfl := Option.some.inj hfault
    obtain rfl : (tree.makeDirectories tree.here (Path.parentComponents path)).1 = stopped :=
      congrArg Prod.fst hmake
    exact
      { output := fun output _ => hadds.sameFiles output
        files := .inl hadds.sameFiles
        sameFiles_iff := iff_of_true hadds.sameFiles (.inl rfl) }
  · next made hmake =>
    obtain rfl : (tree.makeDirectories tree.here (Path.parentComponents path)).1 = made :=
      congrArg Prod.fst hmake
    split at h
    · next stopped hsteps =>
      obtain ⟨rfl, hfault⟩ := Prod.mk.inj h
      obtain rfl := Option.some.inj hfault
      have hother : Failure.unwritableOutput path ≠ .fileSystem := nofun
      rcases of_runAll_writeSteps hsteps with ⟨rfl, hdirectory⟩ | ⟨temporary, hput, hdirectory⟩
      · -- the temporary file cannot be made
        exact
          { output := fun output _ => hadds.sameFiles output
            files := .inl hadds.sameFiles
            sameFiles_iff := iff_of_true hadds.sameFiles
              (.inr fun temporary htemporary => .inl (hdirectory temporary htemporary)) }
      · -- it cannot be moved
        have hleaves := leavesTemporary_of_putsFile hadds.sameFiles hput
        exact
          { output := fun output houtput => keeps_of_isDirectoryAt hadds.sameFiles
              hput.sameDirectories (hdirectory output (hput.sameDirectories.locate?_eq path ▸ houtput))
            files := .inr ⟨temporary, hleaves⟩
            sameFiles_iff := by rw [hleaves.sameFiles_iff, or_iff_right hother] }
    · exact nomatch h

/-! ## §4. Runs that fail. -/

variable {request : GenerationRequest} {failure : Failure} {faults : FileStep.Faults}

/-- A run that fails has changed nothing, or has failed to write. -/
theorem of_run_eq_error (h : (request.run tree faults).result = .error failure) :
    request.prepare tree = .error failure ∧ (request.run tree faults).tree = tree ∨
      ∃ generation, request.prepare tree = .ok generation ∧ request.dryRun = false ∧
        write tree request.output (Bytes.ofText generation.css) faults =
          ((request.run tree faults).tree, some failure) := by
  cases hprepare : request.prepare tree with
  | error fault =>
    have hresult : (request.run tree faults).result = .error fault :=
      run_of_prepare_eq_error hprepare
    obtain rfl : fault = failure := Except.error.inj (hresult.symm.trans h)
    refine .inl ⟨rfl, ?_⟩
    unfold run
    rw [hprepare]
  | ok generation =>
    cases hwet : request.dryRun with
    | true =>
      have hresult := (run_of_dryRun hwet tree faults).2
      rw [hprepare, h] at hresult
      exact nomatch hresult
    | false =>
      rcases hwrite : write tree request.output (Bytes.ofText generation.css) faults with
        ⟨after, _ | fault⟩
      · have hresult := (run_of_write_eq hwet hprepare hwrite).2
        exact nomatch hresult.symm.trans h
      · obtain ⟨rfl, hresult⟩ := run_of_write_eq hwet hprepare hwrite
        obtain rfl : fault = failure := Except.error.inj (hresult.symm.trans h)
        exact .inr ⟨generation, rfl, rfl, hwrite⟩

/-- The steps of a run are those that write what it prepared. -/
theorem exists_of_stopsIn_run (h : FileStep.StopsIn tree (request.run tree faults).steps after) :
    ∃ generation, request.prepare tree = .ok generation ∧ request.dryRun = false ∧
      (request.run tree faults).steps = directoryStep request.output ::
        writeSteps request.output (Bytes.ofText generation.css) := by
  unfold run at h ⊢
  cases hprepare : request.prepare tree with
  | error fault =>
    rw [hprepare] at h
    exact nomatch h
  | ok generation =>
    rw [hprepare] at h
    cases hwet : request.dryRun with
    | true =>
      simp only [hwet, if_true] at h
      exact nomatch h
    | false =>
      refine ⟨generation, rfl, rfl, ?_⟩
      simp only [Bool.false_eq_true, if_false]
      split <;> rfl

/-- **What a failed generation leaves behind.**  It fails before it writes, and the
tree is as it was; or it has prepared the style sheet and fails to write it, at
whichever step and for whatever reason.  Then directories may have been made along
the output's path, and every file is as it was, except that the temporary file may be
there and hold a beginning of the style sheet; the output is as it was if it does not
have the extension of that file.  Where the system carries every step out, the output
is as it was in any case, the temporary file holds the whole style sheet if it is
there, and all files are as they were exactly if the directories or the temporary
file could not be made, or if that file was there and held the same.  What a failed
write can leave is also all that a run can leave that is cut off. -/
theorem failed_run_leaves_temporary (request : GenerationRequest) (tree : FileTree) :
    (∀ faults failure, (request.run tree faults).result = .error failure →
      request.prepare tree = .error failure ∧ (request.run tree faults).tree = tree ∨
      ∃ generation, request.prepare tree = .ok generation ∧ request.dryRun = false ∧
        (failure = .fileSystem ∧ SameFiles tree (request.run tree faults).tree ∨
          failure = .unwritableOutput request.output) ∧
        Abandons tree (request.run tree faults).tree request.output
          (Bytes.ofText generation.css)) ∧
    (∀ failure generation, (request.run tree).result = .error failure →
      request.prepare tree = .ok generation →
        Refuses tree (request.run tree).tree request.output (Bytes.ofText generation.css)
          failure) ∧
    ∀ faults after, FileStep.StopsIn tree (request.run tree faults).steps after →
      ∃ generation, request.prepare tree = .ok generation ∧ request.dryRun = false ∧
        Abandons tree after request.output (Bytes.ofText generation.css) := by
  refine ⟨?_, ?_, ?_⟩
  · -- on any system, a write that fails has stopped in the midst of its steps
    intro faults failure hfailure
    rcases of_run_eq_error hfailure with hunwritten | ⟨generation, hprepare, hwet, hwrite⟩
    · exact .inl hunwritten
    · refine .inr ⟨generation, hprepare, hwet, ?_, abandons_of_stopsIn (stopsIn_of_write hwrite)⟩
      rcases write_failure (congrArg Prod.snd hwrite) with rfl | rfl
      · exact .inl ⟨rfl, sameFiles_of_write hwrite⟩
      · exact .inr rfl
  · -- without faults the tree alone decides which step fails
    intro failure generation hfailure hprepare
    rcases of_run_eq_error hfailure with ⟨hunprepared, -⟩ | ⟨prepared, hprepared, -, hwrite⟩
    · exact nomatch hprepare.symm.trans hunprepared
    · obtain rfl := Except.ok.inj (hprepare.symm.trans hprepared)
      exact refuses_of_write hwrite
  · -- a run that is cut off has the same steps
    intro faults after hstops
    obtain ⟨generation, hprepare, hwet, hsteps⟩ := exists_of_stopsIn_run hstops
    rw [hsteps] at hstops
    exact ⟨generation, hprepare, hwet, abandons_of_stopsIn hstops⟩

/-- Where the output is a directory, the temporary file remains; and an output with
its extension is lost where the system lets the filling fail. -/
theorem failed_run_leaves_temporary_directory :
    let content := "fluid-p-[768px_1px,1280px_2px]"
    let sheet :=
      r".fluid-p-\[768px_1px\2c 1280px_2px\]{padding:clamp(1px, 0.19531vw - 0.5px, 2px)}"
    let tree := FileTree.empty ["work"]
      |>.put ["site"] .directory
      |>.put ["site", "a.html"] (.file (Bytes.ofText content))
      |>.put ["site", "out"] .directory
      |>.put ["site", "old.tmp"] (.file (Bytes.ofText "keep me"))
    let request : GenerationRequest :=
      { inputs := ["/site/a.html"], output := "/site/out", layout := .minified }
    let outcome := request.run tree
    let torn := ({ request with output := "../site/old.tmp" } : GenerationRequest).run tree
      [none, none, some 5]
    outcome.result = .error (.unwritableOutput "/site/out") ∧
      tree.entry? ["site", "out.tmp"] = none ∧
      outcome.tree.entry? ["site", "out.tmp"] = some (.file (Bytes.ofText sheet)) ∧
      outcome.tree.entry? ["site", "a.html"] = some (.file (Bytes.ofText content)) ∧
      ¬ SameFiles tree outcome.tree ∧
      torn.result = .error (.unwritableOutput "../site/old.tmp") ∧
      torn.tree.entry? ["site", "old.tmp"] = some (.file (Bytes.ofText ".flui")) := by
  intro content sheet tree request outcome torn
  have hfinds : request.Finds tree {} ["/site/a.html"] :=
    ⟨rfl, rfl, by decide +kernel, by decide⟩
  have hclass : Markup.IsClass content.toList := by decide +kernel
  have hrule : Config.resolve {} content = .ok (some ⟨r".fluid-p-\[768px_1px\2c 1280px_2px\]",
      [⟨"padding", "clamp(1px, 0.19531vw - 0.5px, 2px)"⟩]⟩) := by decide +kernel
  have htexts : tree.texts ["/site/a.html"] = [content] := by decide +kernel
  have hsheet : (Generation.ofFiles tree {} .minified ["/site/a.html"]).css = sheet := by
    rw [Generation.css_ofFiles_of_isClass hclass hrule htexts]
    decide +kernel
  -- the file is made beside the directory, and cannot be moved over it
  have hwrite : ∃ after, write tree "/site/out" (Bytes.ofText sheet) =
      (after, some (.unwritableOutput "/site/out")) ∧
        after.locate? "/site/out.tmp" = some ["site", "out.tmp"] ∧
        after.isDirectoryAt ["site", "out.tmp"] = false := by
    refine ⟨_, Prod.ext rfl ?_, ?_, ?_⟩ <;> decide +kernel
  -- the other output is its own temporary file, of which five bytes are written
  have htorn : ∃ after, write tree "../site/old.tmp" (Bytes.ofText sheet) [none, none, some 5] =
      (after, some (.unwritableOutput "../site/old.tmp")) ∧
        after.entry? ["site", "old.tmp"] = some (.file (Bytes.ofText ".flui")) := by
    refine ⟨_, Prod.ext rfl ?_, ?_⟩ <;> decide +kernel
  obtain ⟨after, hwrite, hplace, hfile⟩ := hwrite
  obtain ⟨afterTorn, htorn, hlost⟩ := htorn
  obtain ⟨htree, hresult⟩ := hfinds.run_eq rfl hsheet hwrite
  have hfinds' : ({ request with output := "../site/old.tmp" } : GenerationRequest).Finds tree {}
      ["/site/a.html"] := ⟨rfl, hfinds.config_eq, hfinds.paths_eq, hfinds.paths_ne⟩
  obtain ⟨htreeTorn, hresultTorn⟩ := hfinds'.run_eq rfl hsheet htorn
  have hnone : tree.entry? ["site", "out.tmp"] = none := by decide +kernel
  have hrefuses := (failed_run_leaves_temporary request tree).2.1 _ _ hresult hfinds.prepare_eq
  have hname : temporaryPath request.output = "/site/out.tmp" := by decide +kernel
  have hnot : ¬ SameFiles tree outcome.tree := by
    rw [hrefuses.sameFiles_iff, hname, htree]
    rintro (hfault | hplaces)
    · exact nomatch hfault
    · rcases hplaces _ hplace with hdirectory | hthere
      · rw [hfile] at hdirectory
        exact nomatch hdirectory
      · rw [hnone] at hthere
        exact nomatch hthere
  obtain ⟨temporary, hleaves⟩ := hrefuses.files.resolve_left hnot
  have htemporary := hleaves.temporary_eq
  rw [hname, htree, hplace] at htemporary
  obtain rfl := Option.some.inj htemporary
  have hpage := (hleaves.files ["site", "a.html"] (by decide) (Bytes.ofText content)).2
    (by decide +kernel)
  have htorn : torn.tree = afterTorn := htreeTorn
  exact ⟨hresult, hnone, hsheet ▸ hleaves.left, hpage, hnot, hresultTorn, htorn ▸ hlost⟩

end GenerationRequest

end FluidClamp
