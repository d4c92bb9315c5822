/-
  FluidClamp.Proofs.Files.Steps
  ─────────────────────────────
  **WHAT THE STEPS CHANGE IN A TREE.**

  Paths are followed through directories only, so trees with the same directories
  lead every path to the same place (`SameDirectories.locate?_eq`).  The steps fall
  into two kinds:

      making directories    adds directories where nothing was, along the parts
      steps on files        change one location or two, and no directory

  A step that succeeds says where its path led and what was there.  No step moves
  the working directory.
-/
import FluidClamp.Files.Tree
import Mathlib.Data.List.Basic

namespace FluidClamp

namespace FileTree

variable {tree after : FileTree}

/-! ## §1. Entries. -/

/-- What is put at a location is there, and everything else is as before. -/
theorem entry?_put {location : Location} (h : tree.isAbove location = false) (entry : Entry)
    (other : Location) :
    entry? (tree.put location entry) other =
      if other = location then some entry else tree.entry? other := by
  show (if tree.isAbove other = true then _ else _) = _
  rw [put, OrderedMap.get?_insert]
  by_cases hother : other = location
  · rw [hother, h, if_neg Bool.false_ne_true, if_pos rfl, if_pos rfl]
  · rw [if_neg hother, if_neg hother]
    rfl

/-- What is taken away is gone, and everything else is as before. -/
theorem entry?_remove {location : Location} (h : tree.isAbove location = false)
    (other : Location) :
    entry? (tree.remove location) other =
      if other = location then none else tree.entry? other := by
  show (if tree.isAbove other = true then _ else _) = _
  rw [remove, OrderedMap.get?_erase]
  by_cases hother : other = location
  · rw [hother, h, if_neg Bool.false_ne_true, if_pos rfl, if_pos rfl]
  · rw [if_neg hother, if_neg hother]
    rfl

theorem isDirectoryAt_iff {location : Location} :
    tree.isDirectoryAt location = true ↔ tree.entry? location = some .directory := by
  unfold isDirectoryAt
  rw [decide_eq_true_iff]

/-- The working directory and those above it are directories. -/
theorem isDirectoryAt_of_isAbove {location : Location} (h : tree.isAbove location = true) :
    tree.isDirectoryAt location = true := by
  rw [isDirectoryAt_iff, entry?, if_pos h]

/-- Where no directory is, the way to the working directory does not pass. -/
theorem isAbove_eq_false {location : Location} (h : tree.entry? location ≠ some .directory) :
    tree.isAbove location = false := by
  rw [Bool.eq_false_iff]
  exact fun habove => h (isDirectoryAt_iff.1 (isDirectoryAt_of_isAbove habove))

/-- What is there already can be put there without a change. -/
theorem put_of_entry? {location : Location} {content : Bytes}
    (h : tree.entry? location = some (.file content)) :
    tree.put location (.file content) = tree := by
  have habove : ¬ tree.isAbove location = true := by
    rw [Bool.not_eq_true]
    exact isAbove_eq_false (by rw [h]; nofun)
  unfold entry? at h
  rw [if_neg habove] at h
  unfold put
  rw [OrderedMap.insert_of_get? h]

/-! ## §2. Following paths. -/

/-- Both trees have the same directories and the same working directory. -/
structure SameDirectories (tree after : FileTree) : Prop where
  here_eq : after.here = tree.here
  isDirectoryAt_eq : ∀ location, after.isDirectoryAt location = tree.isDirectoryAt location

theorem SameDirectories.trans {middle : FileTree} (h : SameDirectories tree middle)
    (h' : SameDirectories middle after) : SameDirectories tree after :=
  ⟨h'.here_eq.trans h.here_eq,
    fun location => (h'.isDirectoryAt_eq location).trans (h.isDirectoryAt_eq location)⟩

theorem SameDirectories.follow_eq (h : SameDirectories tree after) :
    after.follow = tree.follow := by
  funext location part
  unfold follow
  rw [h.isDirectoryAt_eq location]

/-- **Every path leads to the same place.** -/
theorem SameDirectories.locate?_eq (h : SameDirectories tree after) (path : String) :
    after.locate? path = tree.locate? path := by
  unfold locate?
  rw [h.follow_eq, h.here_eq]

/-- Follow parts from a location. -/
def walk (tree : FileTree) (location : Location) (parts : List String) : Option Location :=
  parts.foldlM tree.follow location

/-- A part is followed from a directory, or from anywhere if it is the root. -/
theorem isDirectoryAt_or_of_follow {location next : Location} {part : String}
    (h : tree.follow location part = some next) :
    tree.isDirectoryAt location = true ∨ part = "/" := by
  unfold follow at h
  split at h
  · next hroot => exact .inr hroot
  · refine .inl ?_
    by_contra hnot
    rw [Bool.not_eq_true] at hnot
    rw [hnot] at h
    exact nomatch h

/-! ## §3. Making directories. -/

/-- The tree afterwards has directories where nothing was, and is the same
elsewhere. -/
structure AddsDirectories (tree after : FileTree) : Prop where
  here_eq : after.here = tree.here
  entry?_eq : ∀ location, after.entry? location = tree.entry? location ∨
    tree.entry? location = none ∧ after.entry? location = some .directory

namespace AddsDirectories

theorem refl (tree : FileTree) : AddsDirectories tree tree := ⟨rfl, fun _ => .inl rfl⟩

theorem trans {middle : FileTree} (h : AddsDirectories tree middle)
    (h' : AddsDirectories middle after) : AddsDirectories tree after := by
  refine ⟨h'.here_eq.trans h.here_eq, ?_⟩
  intro location
  rcases h'.entry?_eq location with hsame | ⟨hnone, hdirectory⟩
  · rw [hsame]
    exact h.entry?_eq location
  · rcases h.entry?_eq location with hsame | ⟨-, hmiddle⟩
    · exact .inr ⟨hsame ▸ hnone, hdirectory⟩
    · rw [hmiddle] at hnone
      exact nomatch hnone

theorem put {location : Location} (h : tree.entry? location = none) :
    AddsDirectories tree (tree.put location .directory) := by
  have habove : tree.isAbove location = false :=
    isAbove_eq_false fun hdirectory => nomatch h.symm.trans hdirectory
  refine ⟨rfl, ?_⟩
  intro other
  rw [entry?_put habove]
  split
  · next heq => exact .inr ⟨heq ▸ h, rfl⟩
  · exact .inl rfl

theorem isDirectoryAt (h : AddsDirectories tree after) {location : Location}
    (hdirectory : tree.isDirectoryAt location = true) : after.isDirectoryAt location = true := by
  rw [isDirectoryAt_iff] at hdirectory ⊢
  rcases h.entry?_eq location with hsame | ⟨hnone, -⟩
  · rw [hsame, hdirectory]
  · rw [hdirectory] at hnone
    exact nomatch hnone

/-- Files are as before. -/
theorem entry?_eq_file_iff (h : AddsDirectories tree after) {location : Location}
    {content : Bytes} :
    after.entry? location = some (.file content) ↔ tree.entry? location = some (.file content) := by
  rcases h.entry?_eq location with hsame | ⟨hnone, hdirectory⟩
  · rw [hsame]
  · rw [hnone, hdirectory]
    exact ⟨nofun, nofun⟩

/-- What could be followed can be followed. -/
theorem follow (h : AddsDirectories tree after) {location next : Location} {part : String}
    (hfollow : tree.follow location part = some next) :
    after.follow location part = some next := by
  rcases isDirectoryAt_or_of_follow hfollow with hdirectory | rfl
  · unfold FileTree.follow at hfollow ⊢
    rw [h.isDirectoryAt hdirectory]
    rw [hdirectory] at hfollow
    exact hfollow
  · exact hfollow

end AddsDirectories

/-- Making directories only adds directories. -/
theorem addsDirectories_makeDirectories (tree : FileTree) (location : Location)
    (parts : List String) : AddsDirectories tree (tree.makeDirectories location parts).1 := by
  -- on the parts, for every tree: each is followed in the tree that the one before left
  induction parts generalizing tree location with
  | nil => exact .refl tree
  | cons part parts ih =>
    unfold makeDirectories
    cases tree.follow location part with
    | none => exact .refl tree
    | some next =>
      simp only
      cases hentry : tree.entry? next with
      | none => exact (AddsDirectories.put hentry).trans (ih _ next)
      | some entry =>
        cases entry with
        | directory => exact ih tree next
        | file content => exact .refl tree

/-- **A directory that was made is one along the parts.** -/
theorem exists_walk_makeDirectories {location made : Location} {parts : List String}
    (hnone : tree.entry? made = none)
    (hmade : entry? (tree.makeDirectories location parts).1 made = some .directory) :
    ∃ front, front <+: parts ∧
      (tree.makeDirectories location parts).1.walk location front = some made := by
  -- the walk is one in the last tree, which has all directories of the trees before it
  induction parts generalizing tree location with
  | nil =>
    rw [show (tree.makeDirectories location []).1 = tree from rfl, hnone] at hmade
    exact nomatch hmade
  | cons part parts ih =>
    have hadds := addsDirectories_makeDirectories tree location (part :: parts)
    unfold makeDirectories at hmade hadds ⊢
    cases hfollow : tree.follow location part with
    | none =>
      rw [hfollow] at hmade
      simp only [hnone] at hmade
      exact nomatch hmade
    | some next =>
      rw [hfollow] at hmade hadds
      simp only at hmade hadds ⊢
      cases hentry : tree.entry? next with
      | some entry =>
        rw [hentry] at hmade hadds
        cases entry with
        | file content =>
          simp only [hnone] at hmade
          exact nomatch hmade
        | directory =>
          obtain ⟨front, hfront, hwalk⟩ := ih hnone hmade
          refine ⟨part :: front, List.cons_prefix_cons.2 ⟨rfl, hfront⟩, ?_⟩
          show (_ >>= _) = _
          rw [hadds.follow hfollow]
          exact hwalk
      | none =>
        rw [hentry] at hmade hadds
        simp only at hmade hadds ⊢
        by_cases hnext : made = next
        · -- it is the directory of this part
          refine ⟨[part], List.cons_prefix_cons.2 ⟨rfl, List.nil_prefix⟩, ?_⟩
          show (_ >>= _) = _
          rw [hadds.follow hfollow, hnext]
          rfl
        · have habove : tree.isAbove next = false :=
            isAbove_eq_false fun hdirectory => nomatch hentry.symm.trans hdirectory
          have hstill : entry? (tree.put next .directory) made = none := by
            rw [entry?_put habove, if_neg hnext, hnone]
          obtain ⟨front, hfront, hwalk⟩ := ih hstill hmade
          refine ⟨part :: front, List.cons_prefix_cons.2 ⟨rfl, hfront⟩, ?_⟩
          show (_ >>= _) = _
          rw [hadds.follow hfollow]
          exact hwalk

/-- **Directories were made along some parts**, and none is lost. -/
structure MakesAlong (tree after : FileTree) (parts : List String) : Prop where
  here_eq : after.here = tree.here
  directories : ∀ location, tree.entry? location = some .directory →
    after.entry? location = some .directory
  made : ∀ location, after.entry? location = some .directory →
    tree.entry? location = some .directory ∨
      tree.entry? location = none ∧
        ∃ front, front <+: parts ∧ after.walk tree.here front = some location

theorem makesAlong_makeDirectories (tree : FileTree) (parts : List String) :
    MakesAlong tree (tree.makeDirectories tree.here parts).1 parts := by
  have hadds := addsDirectories_makeDirectories tree tree.here parts
  refine ⟨hadds.here_eq, ?_, ?_⟩
  · intro location hdirectory
    exact isDirectoryAt_iff.1 (hadds.isDirectoryAt (isDirectoryAt_iff.2 hdirectory))
  · intro location hdirectory
    rcases hadds.entry?_eq location with hold | ⟨hnone, hnew⟩
    · exact .inl (hold ▸ hdirectory)
    · exact .inr ⟨hnone, exists_walk_makeDirectories hnone hnew⟩

namespace MakesAlong

variable {middle : FileTree} {parts front : List String}

theorem refl (tree : FileTree) (parts : List String) : MakesAlong tree tree parts :=
  ⟨rfl, fun _ h => h, fun _ h => .inl h⟩

theorem of_sameDirectories (h : MakesAlong tree middle parts)
    (hsame : SameDirectories middle after) : MakesAlong tree after parts := by
  have hwalk : after.walk = middle.walk := by
    unfold walk
    rw [hsame.follow_eq]
  refine ⟨hsame.here_eq.trans h.here_eq, ?_, ?_⟩
  · intro location hdirectory
    rw [← isDirectoryAt_iff, hsame.isDirectoryAt_eq location, isDirectoryAt_iff]
    exact h.directories location hdirectory
  · intro location hdirectory
    rw [← isDirectoryAt_iff, hsame.isDirectoryAt_eq location, isDirectoryAt_iff] at hdirectory
    rw [hwalk]
    exact h.made location hdirectory

theorem of_prefix (h : MakesAlong tree after front) (hfront : front <+: parts) :
    MakesAlong tree after parts := by
  refine ⟨h.here_eq, h.directories, ?_⟩
  intro location hdirectory
  rcases h.made location hdirectory with hold | ⟨hnone, first, hfirst, hplace⟩
  · exact .inl hold
  · exact .inr ⟨hnone, first, hfirst.trans hfront, hplace⟩

end MakesAlong

end FileTree

/-! ## §4. Steps on files. -/

namespace FileStep

open FileTree

variable {tree after : FileTree}

theorem exists_of_runCreate {path : String} (h : runCreate tree path = (after, true)) :
    ∃ location, tree.locate? path = some location ∧
      tree.entry? location ≠ some .directory ∧ after = tree.put location (.file []) := by
  unfold runCreate at h
  split at h
  · next location hlocation =>
    split at h
    · exact nomatch h
    · next hdirectory =>
      rw [isDirectoryAt_iff] at hdirectory
      exact ⟨location, hlocation, hdirectory, (Prod.mk.inj h).1.symm⟩
  · exact nomatch h

theorem exists_of_runAppend {path : String} {bytes : Bytes}
    (h : runAppend tree path bytes = (after, true)) :
    ∃ location content, tree.locate? path = some location ∧
      tree.entry? location = some (.file content) ∧
      after = tree.put location (.file (content ++ bytes)) := by
  unfold runAppend at h
  split at h
  · next location hlocation =>
    split at h
    · next content hcontent =>
      exact ⟨location, content, hlocation, hcontent, (Prod.mk.inj h).1.symm⟩
    · exact nomatch h
  · exact nomatch h

theorem exists_of_runRename {source target : String}
    (h : runRename tree source target = (after, true)) :
    ∃ old new content, tree.locate? source = some old ∧ tree.locate? target = some new ∧
      tree.entry? old = some (.file content) ∧ tree.entry? new ≠ some .directory ∧
      after = (tree.remove old).put new (.file content) := by
  unfold runRename at h
  split at h
  · next old new hold hnew =>
    split at h
    · next content hcontent =>
      split at h
      · exact nomatch h
      · next hdirectory =>
        rw [isDirectoryAt_iff] at hdirectory
        exact ⟨old, new, content, hold, hnew, hcontent, hdirectory, (Prod.mk.inj h).1.symm⟩
    · exact nomatch h
  · exact nomatch h

/-- A file is not made where a directory is, or where no path leads. -/
theorem eq_of_runCreate {path : String} (h : runCreate tree path = (after, false)) :
    after = tree ∧ ∀ location, tree.locate? path = some location →
      tree.isDirectoryAt location = true := by
  unfold runCreate at h
  split at h
  · next location hlocation =>
    split at h
    · next hdirectory =>
      refine ⟨(Prod.mk.inj h).1.symm, ?_⟩
      intro other hother
      rw [hlocation] at hother
      obtain rfl := Option.some.inj hother
      exact hdirectory
    · exact nomatch h
  · next hnone =>
    refine ⟨(Prod.mk.inj h).1.symm, ?_⟩
    intro other hother
    rw [hnone] at hother
    exact nomatch hother

theorem eq_of_runAppend {path : String} {bytes : Bytes}
    (h : runAppend tree path bytes = (after, false)) : after = tree := by
  unfold runAppend at h
  split at h
  · split at h
    · exact nomatch h
    · exact (Prod.mk.inj h).1.symm
  · exact (Prod.mk.inj h).1.symm

/-- A file that is there is not moved over a directory, or where no path leads. -/
theorem eq_of_runRename {source target : String}
    (h : runRename tree source target = (after, false)) :
    after = tree ∧ ∀ old new content, tree.locate? source = some old →
      tree.locate? target = some new → tree.entry? old = some (.file content) →
        tree.isDirectoryAt new = true := by
  unfold runRename at h
  split at h
  · next old new hold hnew =>
    split at h
    · next content hcontent =>
      split at h
      · next hdirectory =>
        refine ⟨(Prod.mk.inj h).1.symm, ?_⟩
        intro old' new' content' _ hnew' _
        rw [hnew] at hnew'
        obtain rfl := Option.some.inj hnew'
        exact hdirectory
      · exact nomatch h
    · next hnone =>
      refine ⟨(Prod.mk.inj h).1.symm, ?_⟩
      intro old' new' content' hold' _ hcontent'
      rw [hold] at hold'
      obtain rfl := Option.some.inj hold'
      exact absurd hcontent' (hnone content')
  · next hnone =>
    refine ⟨(Prod.mk.inj h).1.symm, ?_⟩
    intro old' new' content' hold' hnew' _
    exact absurd hnew' (hnone old' new' hold')

/-- A step that succeeds was let happen, and the tree admits it. -/
theorem eq_of_attempt {step : FileStep} {fault : Option Nat}
    (h : step.attempt tree fault = (after, true)) :
    fault = none ∧ step.run tree = (after, true) := by
  cases fault with
  | none => exact ⟨rfl, h⟩
  | some n => cases step <;> exact absurd (congrArg Prod.snd h) Bool.false_ne_true

/-- Steps succeed together if each does. -/
theorem runAll_cons_eq {step : FileStep} {rest : List FileStep} {faults : Faults}
    (h : runAll tree (step :: rest) faults = (after, true)) :
    ∃ middle, step.run tree = (middle, true) ∧
      runAll middle rest faults.tail = (after, true) := by
  unfold runAll at h
  split at h
  · next middle hstep => exact ⟨middle, (eq_of_attempt hstep).2, h⟩
  · exact nomatch h

/-- **Steps that succeed** come to what they come to where nothing fails. -/
theorem runAll_of_true {steps : List FileStep} {faults : Faults}
    (h : runAll tree steps faults = (after, true)) : runAll tree steps = (after, true) := by
  induction steps generalizing tree faults with
  | nil => exact h
  | cons step rest ih =>
    obtain ⟨middle, hstep, hrest⟩ := runAll_cons_eq h
    unfold runAll
    rw [show step.attempt tree (([] : Faults).headD none) = (middle, true) from hstep]
    exact ih hrest

/-- A file in the place of a file, or of nothing, leaves the directories as they
are. -/
theorem sameDirectories_put {location : Location} (h : tree.entry? location ≠ some .directory)
    (content : Bytes) : SameDirectories tree (tree.put location (.file content)) := by
  refine ⟨rfl, ?_⟩
  intro other
  rw [Bool.eq_iff_iff, isDirectoryAt_iff, isDirectoryAt_iff,
    entry?_put (isAbove_eq_false h)]
  split
  · next heq =>
    subst heq
    exact ⟨nofun, fun hdirectory => absurd hdirectory h⟩
  · rfl

/-- **A file that is made and filled** holds what it was filled with, whatever was
there before. -/
theorem exists_filled {created : FileTree} {path : String} {bytes : Bytes}
    (hcreate : runCreate tree path = (created, true))
    (hfill : runAppend created path bytes = (after, true)) :
    ∃ location, tree.locate? path = some location ∧ tree.entry? location ≠ some .directory ∧
      SameDirectories tree after ∧
      ∀ other, after.entry? other =
        if other = location then some (.file bytes) else tree.entry? other := by
  obtain ⟨location, hplace, hfree, rfl⟩ := exists_of_runCreate hcreate
  have hbelow := isAbove_eq_false hfree
  have hcreated := sameDirectories_put hfree []
  obtain ⟨there, old, hthere, hold, rfl⟩ := exists_of_runAppend hfill
  rw [hcreated.locate?_eq, hplace] at hthere
  obtain rfl := Option.some.inj hthere
  have hnodir : entry? (tree.put location (.file [])) location ≠ some .directory := by
    rw [hold]
    exact nofun
  -- the file that was made is still empty
  rw [entry?_put hbelow, if_pos rfl] at hold
  obtain rfl : [] = old := Entry.file.inj (Option.some.inj hold)
  refine ⟨location, hplace, hfree, hcreated.trans (sameDirectories_put hnodir _), ?_⟩
  intro other
  rw [entry?_put (isAbove_eq_false hnodir), entry?_put hbelow]
  split <;> rfl

end FileStep

end FluidClamp
