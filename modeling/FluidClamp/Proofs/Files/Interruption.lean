/-
  FluidClamp.Proofs.Files.Interruption
  ────────────────────────────────────
  **WHERE STEPS CAN STOP.**

  Steps that are taken one after the other may not all be taken: one of them fails,
  or the whole run ends.  `StopsIn tree steps after` says that `after` is a tree in
  which they can have stopped before the last was done,

      before    in front of a step
      within    in the midst of one, with some of its directories or bytes written
      later     further on, once a step was done

  whatever the reason for it.  These are the trees in which runs end that fail: each
  run that fails, by the tree or by a fault of the system, stops in one of them, and
  for each of them some faults make a run end there (`stopsIn_iff_exists_faults`).
-/
import FluidClamp.Proofs.Files.Steps

namespace FluidClamp

namespace FileTree

/-- What was made before making directories failed, some parts alone would have made. -/
theorem exists_front_of_makeDirectories {tree after : FileTree} {location : Location}
    {parts : List String} (h : tree.makeDirectories location parts = (after, false)) :
    ∃ front, front <+: parts ∧ tree.makeDirectories location front = (after, true) := by
  -- on the parts, for every tree: each is made in the tree that the one before left
  induction parts generalizing tree location with
  | nil => exact nomatch h
  | cons part parts ih =>
    have hstop : (tree, false) = (after, false) →
        ∃ front, front <+: part :: parts ∧ tree.makeDirectories location front = (after, true) := by
      intro heq
      obtain rfl := (Prod.mk.inj heq).1
      exact ⟨[], List.nil_prefix, rfl⟩
    unfold makeDirectories at h
    cases hfollow : tree.follow location part with
    | none =>
      rw [hfollow] at h
      exact hstop h
    | some next =>
      rw [hfollow] at h
      simp only at h
      cases hentry : tree.entry? next with
      | none =>
        rw [hentry] at h
        obtain ⟨front, hfront, hmade⟩ := ih h
        refine ⟨part :: front, List.cons_prefix_cons.2 ⟨rfl, hfront⟩, ?_⟩
        unfold makeDirectories
        simp only [hfollow, hentry]
        exact hmade
      | some entry =>
        rw [hentry] at h
        cases entry with
        | file content => exact hstop h
        | directory =>
          obtain ⟨front, hfront, hmade⟩ := ih h
          refine ⟨part :: front, List.cons_prefix_cons.2 ⟨rfl, hfront⟩, ?_⟩
          unfold makeDirectories
          simp only [hfollow, hentry]
          exact hmade

end FileTree

namespace FileStep

variable {tree after : FileTree}

/-! ## §1. Parts of a step. -/

/-- A step that does the beginning of another: its first directories or bytes. -/
inductive Part : FileStep → FileStep → Prop
  | directories {front parts : List String} (h : front <+: parts) :
      Part (.makeDirectories front) (.makeDirectories parts)
  | bytes {path : String} {front bytes : Bytes} (h : front <+: bytes) :
      Part (.append path front) (.append path bytes)

/-- **A step that fails** changes nothing, or has been done in part. -/
theorem exists_part_of_run {step : FileStep} (h : step.run tree = (after, false)) :
    after = tree ∨ ∃ done, Part done step ∧ done.run tree = (after, true) := by
  cases step with
  | makeDirectories parts =>
    obtain ⟨front, hfront, hmade⟩ := FileTree.exists_front_of_makeDirectories h
    exact .inr ⟨.makeDirectories front, .directories hfront, hmade⟩
  | create path => exact .inl (eq_of_runCreate h).1
  | append path bytes => exact .inl (eq_of_runAppend h)
  | sync path => exact nomatch h
  | rename source target => exact .inl (eq_of_runRename h).1

/-- It is the same with a step that the system lets fail. -/
theorem exists_part_of_attempt {step : FileStep} {fault : Option Nat}
    (h : step.attempt tree fault = (after, false)) :
    after = tree ∨ ∃ done, Part done step ∧ done.run tree = (after, true) := by
  cases fault with
  | none => exact exists_part_of_run h
  | some n =>
    cases step with
    | makeDirectories parts =>
      -- the first `n` parts were made, or what the tree admits of them
      have hfront : parts.take n <+: parts := List.take_prefix n parts
      rcases hmade : tree.makeDirectories tree.here (parts.take n) with ⟨made, done⟩
      obtain rfl : made = after :=
        (congrArg Prod.fst hmade).symm.trans (congrArg Prod.fst h)
      cases done with
      | true => exact .inr ⟨.makeDirectories _, .directories hfront, hmade⟩
      | false =>
        obtain ⟨front, hshorter, hmade⟩ := FileTree.exists_front_of_makeDirectories hmade
        exact .inr ⟨.makeDirectories front, .directories (hshorter.trans hfront), hmade⟩
    | append path bytes =>
      rcases hwritten : runAppend tree path (bytes.take n) with ⟨written, done⟩
      obtain rfl : written = after :=
        (congrArg Prod.fst hwritten).symm.trans (congrArg Prod.fst h)
      cases done with
      | true => exact .inr ⟨.append path _, .bytes (List.take_prefix n bytes), hwritten⟩
      | false => exact .inl (eq_of_runAppend hwritten)
    | create path => exact .inl (congrArg Prod.fst h).symm
    | sync path => exact .inl (congrArg Prod.fst h).symm
    | rename source target => exact .inl (congrArg Prod.fst h).symm

/-- Each part of a step is one that a fault can leave. -/
theorem exists_attempt_of_part {done step : FileStep} (hpart : Part done step)
    (hrun : done.run tree = (after, true)) : ∃ n, step.attempt tree (some n) = (after, false) := by
  cases hpart with
  | @directories front parts hfront =>
    refine ⟨front.length, Prod.ext ?_ rfl⟩
    show (tree.makeDirectories tree.here (parts.take front.length)).1 = after
    rw [← List.prefix_iff_eq_take.1 hfront]
    exact congrArg Prod.fst hrun
  | @bytes path front bytes hfront =>
    refine ⟨front.length, Prod.ext ?_ rfl⟩
    show (runAppend tree path (bytes.take front.length)).1 = after
    rw [← List.prefix_iff_eq_take.1 hfront]
    exact congrArg Prod.fst hrun

/-- Where no byte is written, nothing is changed. -/
theorem runAppend_nil (tree : FileTree) (path : String) : (runAppend tree path []).1 = tree := by
  unfold runAppend
  split
  · split
    · next content hcontent =>
      rw [List.append_nil]
      exact FileTree.put_of_entry? hcontent
    · rfl
  · rfl

/-- A step can fail before anything of it is done. -/
theorem attempt_zero (tree : FileTree) (step : FileStep) :
    step.attempt tree (some 0) = (tree, false) := by
  cases step with
  | append path bytes => exact Prod.ext (runAppend_nil tree path) rfl
  | _ => rfl

/-! ## §2. Trees in which steps stop. -/

/-- **Where steps can stop** before all of them are done. -/
inductive StopsIn : FileTree → List FileStep → FileTree → Prop
  | before (tree : FileTree) (step : FileStep) (rest : List FileStep) :
      StopsIn tree (step :: rest) tree
  | within {tree after : FileTree} {done step : FileStep} (rest : List FileStep)
      (hpart : Part done step) (hrun : done.run tree = (after, true)) :
      StopsIn tree (step :: rest) after
  | later {tree middle after : FileTree} {step : FileStep} {rest : List FileStep}
      (hrun : step.run tree = (middle, true)) (hrest : StopsIn middle rest after) :
      StopsIn tree (step :: rest) after

/-- Steps that fail stop where they can stop. -/
theorem stopsIn_of_runAll {steps : List FileStep} {faults : Faults}
    (h : runAll tree steps faults = (after, false)) : StopsIn tree steps after := by
  -- on the steps, for every tree: each is tried in the tree that the one before left
  induction steps generalizing tree faults with
  | nil => exact nomatch h
  | cons step rest ih =>
    unfold runAll at h
    split at h
    · next middle hstep => exact .later (eq_of_attempt hstep).2 (ih h)
    · next stopped hstep =>
      obtain rfl := (Prod.mk.inj h).1
      rcases exists_part_of_attempt hstep with rfl | ⟨done, hpart, hrun⟩
      · exact .before _ step rest
      · exact .within rest hpart hrun

theorem runAll_of_attempt {step : FileStep} {rest : List FileStep} {fault : Option Nat}
    (h : step.attempt tree fault = (after, false)) :
    runAll tree (step :: rest) [fault] = (after, false) := by
  unfold runAll
  rw [List.headD_cons, h]

/-- **Steps stop where runs that fail end**, on some system. -/
theorem stopsIn_iff_exists_faults {steps : List FileStep} :
    StopsIn tree steps after ↔ ∃ faults, runAll tree steps faults = (after, false) := by
  refine ⟨fun h => ?_, fun ⟨_, h⟩ => stopsIn_of_runAll h⟩
  induction h with
  | before tree step rest => exact ⟨_, runAll_of_attempt (attempt_zero tree step)⟩
  | within rest hpart hrun =>
    obtain ⟨n, hstep⟩ := exists_attempt_of_part hpart hrun
    exact ⟨_, runAll_of_attempt hstep⟩
  | @later tree middle after step rest hrun _ ih =>
    obtain ⟨faults, hfaults⟩ := ih
    refine ⟨none :: faults, ?_⟩
    unfold runAll
    rw [List.headD_cons, show step.attempt tree none = (middle, true) from hrun]
    exact hfaults

end FileStep

end FluidClamp
