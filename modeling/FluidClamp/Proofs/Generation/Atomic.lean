/-
  FluidClamp.Proofs.Generation.Atomic
  ───────────────────────────────────
  **WHAT A READER OF THE OUTPUT SEES.**

  A reader that looks at the output while it is written, or after the writing was
  cut off, is to see the old file or the new one.  It does as long as the temporary
  file is another file than the output:

      the extension of the output is not `tmp`      old or new, at every stage
      the extension of the output is `tmp`          the output is its own temporary
                                                    file, and every beginning of the
                                                    new content is seen at some stage

  (`isWhole_iff`).  With the extension `tmp` a reader still sees nothing else
  if the output cannot be written, or if the beginnings of the new content are no
  more than the old content and the new one.

  The stages are the trees in which the steps can be cut off, and the last tree; they
  are also the trees in which runs end, on whatever system (`isStage_iff`).
-/
import FluidClamp.Proofs.Files.Names
import FluidClamp.Proofs.Generation.Remains

namespace FluidClamp

/-! ## §1. Stages. -/

/-- What is where a path leads. -/
def FileTree.entryAt? (tree : FileTree) (path : String) : Option Entry :=
  (tree.locate? path).bind tree.entry?

/-- Some file is where the path leads, or can be made there. -/
def FileTree.Takes (tree : FileTree) (path : String) : Prop :=
  ∃ location, tree.locate? path = some location ∧ tree.entry? location ≠ some .directory

/-- **A stage of the steps**: a tree in which they can stop, or the last one. -/
def FileStep.IsStage (tree : FileTree) (steps : List FileStep) (after : FileTree) : Prop :=
  StopsIn tree steps after ∨ runAll tree steps = (after, true)

/-- **Stages are where runs end**, those that fail and the one that does not. -/
theorem FileStep.isStage_iff {tree after : FileTree} {steps : List FileStep} :
    IsStage tree steps after ↔ ∃ faults, (runAll tree steps faults).1 = after := by
  constructor
  · rintro (hstops | hdone)
    · obtain ⟨faults, hfaults⟩ := stopsIn_iff_exists_faults.1 hstops
      exact ⟨faults, congrArg Prod.fst hfaults⟩
    · exact ⟨[], congrArg Prod.fst hdone⟩
  · rintro ⟨faults, rfl⟩
    cases h : runAll tree steps faults with
    | mk after done =>
      cases done with
      | true => exact .inr (runAll_of_true h)
      | false => exact .inl (stopsIn_of_runAll h)

namespace GenerationRequest

open FileTree

variable {tree after : FileTree} {path : String} {content : Bytes}

/-- **The file at the path is the old one or the new one** at every stage of writing
it. -/
def IsWhole (tree : FileTree) (path : String) (content : Bytes) : Prop :=
  ∀ after, FileStep.IsStage tree (writeSteps path content) after →
    after.entryAt? path = tree.entryAt? path ∨ after.entryAt? path = some (.file content)

theorem entryAt?_of_putsFile {bytes : Bytes} {place : Location} {other : String}
    (h : PutsFile tree after other bytes place) :
    after.entryAt? path =
      if tree.locate? path = some place then some (.file bytes) else tree.entryAt? path := by
  unfold entryAt?
  rw [h.sameDirectories.locate?_eq]
  cases hlocation : tree.locate? path with
  | none => rfl
  | some location =>
    rw [Option.bind_some, Option.bind_some, h.entry?_eq]
    simp only [Option.some.injEq]

/-- Where a file was put, there was no directory. -/
theorem ne_directory_of_putsFile {bytes : Bytes} {place : Location} {other : String}
    (h : PutsFile tree after other bytes place) : tree.entry? place ≠ some .directory := by
  intro hdirectory
  have hafter := h.sameDirectories.isDirectoryAt_eq place
  rw [isDirectoryAt_iff.2 hdirectory, isDirectoryAt_iff, h.entry?_eq, if_pos rfl] at hafter
  exact nomatch hafter

/-- After the last step the new content is there. -/
theorem entryAt?_of_runAll_writeSteps
    (h : FileStep.runAll tree (writeSteps path content) = (after, true)) :
    after.entryAt? path = some (.file content) := by
  obtain ⟨output, temporary, houtput, -, -, -, -, hafter⟩ := exists_of_runAll_writeSteps h
  unfold entryAt?
  rw [(sameDirectories_of_runAll_writeSteps h).locate?_eq, houtput, Option.bind_some, hafter,
    if_pos rfl]

/-! ## §2. Another temporary file. -/

/-- **A temporary file elsewhere** keeps the output whole. -/
theorem isWhole_of_elsewhere
    (h : ∀ temporary, tree.locate? (temporaryPath path) = some temporary →
      tree.entry? temporary ≠ some .directory → tree.locate? path ≠ some temporary) :
    IsWhole tree path content := by
  intro after hstage
  rcases hstage with hstops | hdone
  · rcases of_stopsIn_writeSteps hstops with rfl | ⟨temporary, front, -, hput⟩
    · exact .inl rfl
    · -- only the temporary file is changed, and the path does not lead there
      have helsewhere := h temporary hput.locate?_eq (ne_directory_of_putsFile hput)
      rw [entryAt?_of_putsFile hput, if_neg helsewhere]
      exact .inl rfl
  · exact .inr (entryAt?_of_runAll_writeSteps hdone)

/-- With another extension it is elsewhere, as the name is another one. -/
theorem isWhole_of_extension?_ne (hextension : Path.extension? path ≠ some "tmp") :
    IsWhole tree path content := by
  refine isWhole_of_elsewhere fun temporary htemporary hfree hlocation => hextension ?_
  have hslash : ∀ c ∈ "tmp".toList, c ≠ '/' := by decide
  exact (locate?_withExtension_eq_iff (by decide) hslash hlocation hfree htemporary).1 rfl

/-- Where no file can be made, there is no temporary one. -/
theorem isWhole_of_not_takes (htakes : ¬ tree.Takes path) : IsWhole tree path content :=
  isWhole_of_elsewhere fun temporary _ hfree hlocation => htakes ⟨temporary, hlocation, hfree⟩

/-! ## §3. The extension `tmp`. -/

/-- **The output is its own temporary file.** -/
theorem temporaryPath_eq_self (hextension : Path.extension? path = some "tmp")
    (htakes : tree.Takes path) : temporaryPath path = path := by
  obtain ⟨location, hlocation, hfree⟩ := htakes
  obtain ⟨folder, name, hends⟩ := exists_endsIn hlocation hfree
  exact hends.withExtension_eq_self hextension

/-- So a reader can see the new content as far as it was written. -/
theorem exists_stage_of_prefix (hextension : Path.extension? path = some "tmp")
    (htakes : tree.Takes path) {front : Bytes} (hfront : front <+: content) :
    ∃ after, FileStep.StopsIn tree (writeSteps path content) after ∧
      after.entryAt? path = some (.file front) := by
  have hself := temporaryPath_eq_self hextension htakes
  obtain ⟨location, hlocation, hfree⟩ := htakes
  have hcreate : FileStep.runCreate tree path = (tree.put location (.file []), true) := by
    unfold FileStep.runCreate
    simp only [hlocation]
    rw [if_neg fun hdirectory => hfree (isDirectoryAt_iff.1 hdirectory)]
  obtain ⟨after, happend⟩ := runAppend_of_runCreate front hcreate
  obtain ⟨place, hput⟩ := exists_putsFile_of_runAppend hcreate happend
  refine ⟨after, ?_, ?_⟩
  · unfold writeSteps
    rw [hself]
    exact .later hcreate (.within _ (.bytes hfront) happend)
  · rw [entryAt?_of_putsFile hput, if_pos hput.locate?_eq]

/-- At each stage it is the old content, or the new one as far as it was written. -/
theorem entryAt?_of_isStage (hextension : Path.extension? path = some "tmp")
    (htakes : tree.Takes path) (hstage : FileStep.IsStage tree (writeSteps path content) after) :
    after.entryAt? path = tree.entryAt? path ∨
      ∃ front, front <+: content ∧ after.entryAt? path = some (.file front) := by
  have hself := temporaryPath_eq_self hextension htakes
  rcases hstage with hstops | hdone
  · rcases of_stopsIn_writeSteps hstops with rfl | ⟨temporary, front, hfront, hput⟩
    · exact .inl rfl
    · rw [hself] at hput
      rw [entryAt?_of_putsFile hput, if_pos hput.locate?_eq]
      exact .inr ⟨front, hfront, rfl⟩
  · exact .inr ⟨content, List.prefix_refl content, entryAt?_of_runAll_writeSteps hdone⟩

/-- All beginnings of a content are the old one or itself only if it is short. -/
theorem forall_prefix_iff (old : Option Entry) :
    (∀ front, front <+: content → some (.file front) = old ∨ front = content) ↔
      content = [] ∨ content.length = 1 ∧ old = some (.file []) := by
  constructor
  · intro h
    cases content with
    | nil => exact .inl rfl
    | cons byte rest =>
      have hempty := (h [] List.nil_prefix).resolve_right nofun
      refine .inr ⟨?_, hempty.symm⟩
      have hfirst : [byte] <+: byte :: rest := ⟨rest, rfl⟩
      rcases h [byte] hfirst with hold | hall
      · rw [← hempty] at hold
        exact nomatch Entry.file.inj (Option.some.inj hold)
      · rw [← hall]
        rfl
  · rintro (rfl | ⟨hone, rfl⟩) front hfront
    · exact .inr (List.prefix_nil.1 hfront)
    · obtain ⟨byte, rfl⟩ := List.length_eq_one_iff.1 hone
      rcases List.prefix_cons_iff.1 hfront with rfl | ⟨rest, rfl, hrest⟩
      · exact .inl rfl
      · rw [List.prefix_nil.1 hrest]
        exact .inr rfl

/-! ## §4. Every path. -/

/-- **Whole at every stage**, in terms of the path and of both contents. -/
theorem isWhole_iff :
    IsWhole tree path content ↔
      (Path.extension? path = some "tmp" → tree.Takes path →
        content = [] ∨ content.length = 1 ∧ tree.entryAt? path = some (.file [])) := by
  by_cases hextension : Path.extension? path = some "tmp"
  · by_cases htakes : tree.Takes path
    · -- the stages show the beginnings of the content, and nothing else
      have hstages : IsWhole tree path content ↔
          ∀ front, front <+: content → some (.file front) = tree.entryAt? path ∨ front = content := by
        constructor
        · intro hwhole front hfront
          obtain ⟨after, hstops, hafter⟩ := exists_stage_of_prefix hextension htakes hfront
          rcases hwhole after (.inl hstops) with hold | hnew
          · exact .inl (hafter.symm.trans hold)
          · exact .inr (Entry.file.inj (Option.some.inj (hafter.symm.trans hnew)))
        · intro hfronts after hstage
          rcases entryAt?_of_isStage hextension htakes hstage with hold | ⟨front, hfront, hafter⟩
          · exact .inl hold
          · rcases hfronts front hfront with hold | rfl
            · exact .inl (hafter.trans hold)
            · exact .inr hafter
      rw [hstages, forall_prefix_iff]
      simp only [hextension, htakes, forall_const]
    · exact ⟨fun _ _ h => absurd h htakes, fun _ => isWhole_of_not_takes htakes⟩
  · exact ⟨fun _ h => absurd h hextension, fun _ => isWhole_of_extension?_ne hextension⟩

/-- **When a reader of the output sees the old file or the new one**, wherever the
steps that write it are cut off or fail: exactly if the output does not have the
extension `tmp`, or cannot be written, or the new content has no beginnings but the
old content and itself.  With that extension, a reader can see every beginning of the
new content.  The stages that a reader can look at are those in which runs end, on
whatever system. -/
theorem write_isWhole_iff (tree : FileTree) (path : String) (content : Bytes) :
    (IsWhole tree path content ↔
      (Path.extension? path = some "tmp" → tree.Takes path →
        content = [] ∨ content.length = 1 ∧ tree.entryAt? path = some (.file []))) ∧
    (Path.extension? path = some "tmp" → tree.Takes path →
      temporaryPath path = path ∧ ∀ front, front <+: content →
        ∃ after, FileStep.StopsIn tree (writeSteps path content) after ∧
          after.entryAt? path = some (.file front)) ∧
    ∀ after, FileStep.IsStage tree (writeSteps path content) after ↔
      ∃ faults, (FileStep.runAll tree (writeSteps path content) faults).1 = after := by
  refine ⟨isWhole_iff, ?_, fun after => FileStep.isStage_iff⟩
  intro hextension htakes
  exact ⟨temporaryPath_eq_self hextension htakes,
    fun _ hfront => exists_stage_of_prefix hextension htakes hfront⟩

/-- The same file under two names, one of them absolute: under one it is whole at
every stage, under the other it is empty at one of them. -/
theorem write_isWhole_iff_all_tmp :
    let tree := FileTree.empty ["site"]
      |>.put ["site", "all.css"] (.file (Bytes.ofText "keep me"))
      |>.put ["site", "all.tmp"] (.file (Bytes.ofText "keep me"))
    let content := Bytes.ofText ".p"
    IsWhole tree "all.css" content ∧ ¬ IsWhole tree "all.tmp" content ∧
      ¬ IsWhole tree "/site/all.tmp" content ∧
      ∃ faults, entryAt? (FileStep.runAll tree (writeSteps "/site/all.tmp" content) faults).1
        "/site/all.tmp" = some (.file []) := by
  intro tree content
  have hother : Path.extension? "all.css" ≠ some "tmp" := by decide +kernel
  have hlong (path : String) : ¬ (content = [] ∨ content.length = 1 ∧
      tree.entryAt? path = some (.file [])) := by
    rintro (hnil | ⟨hone, -⟩)
    · exact absurd hnil (by decide +kernel)
    · exact absurd hone (by decide +kernel)
  have hextension : Path.extension? "all.tmp" = some "tmp" := by decide +kernel
  have htakes : tree.Takes "all.tmp" := ⟨["site", "all.tmp"], by decide +kernel, by decide +kernel⟩
  have hextension' : Path.extension? "/site/all.tmp" = some "tmp" := by decide +kernel
  have htakes' : tree.Takes "/site/all.tmp" :=
    ⟨["site", "all.tmp"], by decide +kernel, by decide +kernel⟩
  obtain ⟨hiff, hseen, hstages⟩ := write_isWhole_iff tree "/site/all.tmp" content
  refine ⟨(write_isWhole_iff tree "all.css" content).1.2 fun h => absurd h hother, ?_, ?_, ?_⟩
  · exact fun hwhole =>
      hlong _ ((write_isWhole_iff tree "all.tmp" content).1.1 hwhole hextension htakes)
  · exact fun hwhole => hlong _ (hiff.1 hwhole hextension' htakes')
  · obtain ⟨after, hstops, hempty⟩ := (hseen hextension' htakes').2 [] List.nil_prefix
    obtain ⟨faults, rfl⟩ := (hstages after).1 (.inl hstops)
    exact ⟨faults, hempty⟩

end GenerationRequest

end FluidClamp
