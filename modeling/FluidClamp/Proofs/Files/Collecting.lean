/-
  FluidClamp.Proofs.Files.Collecting
  ──────────────────────────────────
  **WHICH PATHS ARE COLLECTED.**

  Two texts can be spellings of one path (`samePath`), such as `a/b` and `a/./b`.
  Of each path the spelling that is found first is kept (`firstSpellings`), and
  what is collected are the first spellings of all that the patterns select, less
  the directories and what is excluded (`selection`).  So the order of the
  patterns decides on the order and the spellings of the paths, and on nothing
  else.

  The paths are told apart by their components and excluded by their texts, and
  so an exclude may bring a path in that was not there before: another spelling
  of one that it takes away.
-/
import FluidClamp.Files.Collect
import Mathlib.Data.List.Basic

namespace FluidClamp

/-! ## §1. Spellings of a path. -/

theorem samePath_iff {a b : String} :
    samePath a b = true ↔ Path.components a = Path.components b := decide_eq_true_iff

theorem samePath_refl (a : String) : samePath a a = true := samePath_iff.2 rfl

theorem samePath_comm (a b : String) : samePath a b = samePath b a :=
  decide_eq_decide.2 eq_comm

theorem samePath_congr {a b : String} (h : samePath a b = true) (c : String) :
    samePath a c = samePath b c := by
  unfold samePath
  rw [samePath_iff.1 h]

/-- A test that says the same of all spellings that a list has of a path. -/
def AgreesOnSpellings (test : String → Bool) (paths : List String) : Prop :=
  ∀ a ∈ paths, ∀ b ∈ paths, samePath a b = true → test a = test b

instance (test : String → Bool) (paths : List String) :
    Decidable (AgreesOnSpellings test paths) :=
  inferInstanceAs (Decidable (∀ a ∈ paths, ∀ b ∈ paths, samePath a b = true → test a = test b))

theorem agreesOnSpellings_samePath (paths : List String) (path : String) :
    AgreesOnSpellings (fun other => !samePath path other) paths := by
  intro a _ b _ hsame
  simp only [samePath_comm path, samePath_congr hsame path]

theorem AgreesOnSpellings.mono {test : String → Bool} {paths others : List String}
    (h : AgreesOnSpellings test paths) (hsubset : others ⊆ paths) :
    AgreesOnSpellings test others :=
  fun a ha b hb => h a (hsubset ha) b (hsubset hb)

/-- Whether some text of a list is a spelling of the path. -/
def spells (paths : List String) (path : String) : Bool := paths.any (samePath path)

theorem spells_iff {paths : List String} {path : String} :
    spells paths path = true ↔ ∃ other ∈ paths, samePath path other = true := List.any_eq_true

theorem spells_of_mem {paths : List String} {path : String} (h : path ∈ paths) :
    spells paths path = true := spells_iff.2 ⟨path, h, samePath_refl path⟩

/-! ## §2. First spellings. -/

/-- **The paths in the spellings that stand first.** -/
def firstSpellings (paths : List String) : List String :=
  paths.eraseDupsBy fun later first => samePath first later

@[simp] theorem firstSpellings_nil : firstSpellings [] = [] := rfl

private theorem firstSpellings_cons_filter (path : String) (rest : List String) :
    firstSpellings (path :: rest) =
      path :: firstSpellings (rest.filter fun other => !samePath path other) := by
  simp [firstSpellings, List.eraseDupsBy_cons]

/-- A test that agrees on spellings can be made before or after. -/
theorem firstSpellings_filter {test : String → Bool} (paths : List String)
    (h : AgreesOnSpellings test paths) :
    firstSpellings (paths.filter test) = (firstSpellings paths).filter test := by
  -- the first spelling takes others out of the rest, so the induction is on the length
  induction hlength : paths.length using Nat.strongRecOn generalizing paths with
  | _ length ih =>
    match paths with
    | [] => rfl
    | path :: rest =>
      have hshorter : (rest.filter fun other => !samePath path other).length < length := by
        rw [← hlength]
        exact Nat.lt_succ_of_le (List.length_filter_le _ rest)
      have hrest : rest.filter (fun other => !samePath path other) ⊆ path :: rest :=
        fun other hother => List.mem_cons_of_mem path (List.mem_of_mem_filter hother)
      have hothers := ih _ hshorter _ (h.mono hrest) rfl
      rw [firstSpellings_cons_filter path rest]
      cases htest : test path with
      | true =>
        rw [List.filter_cons_of_pos htest, List.filter_cons_of_pos htest,
          firstSpellings_cons_filter, List.filter_comm, hothers]
      | false =>
        have hnot : ¬ test path = true := by simp [htest]
        rw [List.filter_cons_of_neg hnot, List.filter_cons_of_neg hnot, ← hothers,
          List.filter_filter]
        congr 1
        refine List.filter_congr fun other hother => ?_
        cases hsame : samePath path other with
        | false => simp
        | true =>
          have hagrees := h path List.mem_cons_self other (List.mem_cons_of_mem path hother) hsame
          simp [← hagrees, htest]

/-- The first text stands as it is, and its other spellings go. -/
theorem firstSpellings_cons (path : String) (rest : List String) :
    firstSpellings (path :: rest) =
      path :: (firstSpellings rest).filter fun other => !samePath path other := by
  rw [firstSpellings_cons_filter,
    firstSpellings_filter rest (agreesOnSpellings_samePath rest path)]

theorem firstSpellings_sublist (paths : List String) : (firstSpellings paths).Sublist paths := by
  induction paths with
  | nil => exact List.Sublist.refl _
  | cons path rest ih =>
    rw [firstSpellings_cons]
    exact (List.filter_sublist.trans ih).cons_cons path

/-- Every path is still there, and no other. -/
theorem spells_firstSpellings (paths : List String) (path : String) :
    spells (firstSpellings paths) path = spells paths path := by
  induction paths with
  | nil => rfl
  | cons first rest ih =>
    rw [firstSpellings_cons, spells, spells, List.any_cons, List.any_cons, List.any_filter]
    cases hsame : samePath path first with
    | true => simp
    | false =>
      -- a spelling of `path` is none of `first`, so the filter drops none
      have hdropped : (firstSpellings rest).any (fun other =>
          !samePath first other && samePath path other) = spells (firstSpellings rest) path := by
        refine congrArg (List.any _) (funext fun other => ?_)
        cases hother : samePath path other with
        | false => simp
        | true =>
          rw [samePath_comm first, ← samePath_congr hother, hsame]
          rfl
      rw [Bool.false_or, Bool.false_or, hdropped, ih, spells]

/-- **Of each path there is one spelling.** -/
theorem eq_of_samePath_firstSpellings {paths : List String} {a b : String}
    (ha : a ∈ firstSpellings paths) (hb : b ∈ firstSpellings paths)
    (hsame : samePath a b = true) : a = b := by
  induction paths with
  | nil => exact absurd ha List.not_mem_nil
  | cons path rest ih =>
    rw [firstSpellings_cons, List.mem_cons, List.mem_filter] at ha hb
    rcases ha with rfl | ⟨ha, hfirst⟩ <;> rcases hb with rfl | ⟨hb, hsecond⟩
    · rfl
    · rw [hsame] at hsecond
      exact absurd hsecond (by simp)
    · rw [samePath_comm b a, hsame] at hfirst
      exact absurd hfirst (by simp)
    · exact ih ha hb

/-- What stands behind adds the paths that are new. -/
theorem firstSpellings_append (paths others : List String) :
    firstSpellings (paths ++ others) =
      firstSpellings paths ++ (firstSpellings others).filter fun path => !spells paths path := by
  induction paths with
  | nil => exact (List.filter_eq_self.2 fun _ _ => rfl).symm
  | cons path rest ih =>
    rw [List.cons_append, firstSpellings_cons, firstSpellings_cons, ih, List.filter_append,
      List.filter_filter, List.cons_append]
    congr 2
    refine List.filter_congr fun other _ => ?_
    rw [spells, spells, List.any_cons, samePath_comm path, Bool.not_or]

theorem firstSpellings_prefix (paths others : List String) :
    firstSpellings paths <+: firstSpellings (paths ++ others) := by
  rw [firstSpellings_append]
  exact List.prefix_append _ _

/-- Texts that stand before already can be left out. -/
theorem firstSpellings_append_of_subset {front again : List String} (rest : List String)
    (h : again ⊆ front) :
    firstSpellings (front ++ (again ++ rest)) = firstSpellings (front ++ rest) := by
  have hagain : (firstSpellings again).filter (fun path => !spells front path) = [] := by
    refine List.filter_eq_nil_iff.2 fun path hpath => ?_
    rw [spells_of_mem (h ((firstSpellings_sublist again).mem hpath))]
    simp
  rw [firstSpellings_append front, firstSpellings_append front, firstSpellings_append again,
    List.filter_append, hagain, List.nil_append, List.filter_filter]
  congr 1
  refine List.filter_congr fun path _ => ?_
  cases hfront : spells front path with
  | true => simp
  | false =>
    have hnot : spells again path = false := by
      refine Bool.eq_false_iff.2 fun hspells => ?_
      obtain ⟨other, hother, hsame⟩ := spells_iff.1 hspells
      have hspells : spells front path = true := spells_iff.2 ⟨other, h hother, hsame⟩
      rw [hfront] at hspells
      exact Bool.false_ne_true hspells
    simp [hnot]

/-- What a test leaves of the first spellings is among the first spellings of what
it leaves, in the same order. -/
theorem filter_firstSpellings_sublist (test : String → Bool) (paths : List String) :
    ((firstSpellings paths).filter test).Sublist (firstSpellings (paths.filter test)) := by
  induction paths with
  | nil => exact List.Sublist.refl _
  | cons path rest ih =>
    rw [firstSpellings_cons]
    cases htest : test path with
    | true =>
      rw [List.filter_cons_of_pos htest, List.filter_cons_of_pos htest, firstSpellings_cons,
        List.filter_comm]
      exact (ih.filter _).cons_cons path
    | false =>
      have hnot : ¬ test path = true := by simp [htest]
      rw [List.filter_cons_of_neg hnot, List.filter_cons_of_neg hnot]
      exact (List.filter_sublist.filter test).trans ih

/-- A path that a test brings in has another spelling that the test takes away. -/
theorem mem_firstSpellings_of_filter {test : String → Bool} {paths : List String} {path : String}
    (h : path ∈ firstSpellings (paths.filter test)) :
    test path = true ∧ (path ∈ firstSpellings paths ∨
      ∃ other ∈ firstSpellings paths, samePath path other = true ∧ test other = false) := by
  obtain ⟨hmem, htest⟩ := List.mem_filter.1 ((firstSpellings_sublist _).mem h)
  refine ⟨htest, ?_⟩
  have hspells : spells (firstSpellings paths) path = true := by
    rw [spells_firstSpellings]
    exact spells_of_mem hmem
  obtain ⟨other, hother, hsame⟩ := spells_iff.1 hspells
  cases hkept : test other with
  | false => exact .inr ⟨other, hother, hsame, hkept⟩
  | true =>
    -- the other spelling stays, and there is one spelling of each path
    have hstays := (filter_firstSpellings_sublist test paths).mem
      (List.mem_filter.2 ⟨hother, hkept⟩)
    exact .inl (eq_of_samePath_firstSpellings h hstays hsame ▸ hother)

/-! ## §3. Collecting, path by path. -/

/-- One path is added to the first spellings of those before, unless it is passed
over. -/
theorem keepPath_firstSpellings (isPassed : String → Bool) (seen : List String) (path : String) :
    keepPath isPassed (firstSpellings seen) path =
      firstSpellings (seen ++ [path].filter fun path => !isPassed path) := by
  unfold keepPath
  rw [← spells, spells_firstSpellings]
  cases hpassed : isPassed path with
  | true => simp [hpassed]
  | false =>
    rw [List.filter_cons_of_pos (by simp [hpassed]), List.filter_nil, firstSpellings_append]
    cases hspells : spells seen path <;> simp [firstSpellings_cons, hspells]

/-- The same for all paths that one pattern selects. -/
theorem foldl_keepPath (isPassed : String → Bool) (seen found : List String) :
    found.foldl (keepPath isPassed) (firstSpellings seen) =
      firstSpellings (seen ++ found.filter fun path => !isPassed path) := by
  induction found generalizing seen with
  | nil => simp
  | cons path rest ih =>
    rw [List.foldl_cons, keepPath_firstSpellings, ih, List.append_assoc, ← List.filter_append,
      List.singleton_append]

/-! ## §4. Collecting, pattern by pattern. -/

/-- Every text can be read. -/
def AllRead {α : Type} (read? : String → Option α) (texts : List String) : Prop :=
  ∀ text ∈ texts, ∃ result, read? text = some result

theorem allRead_cons {α : Type} {read? : String → Option α} {text : String}
    {rest : List String} :
    AllRead read? (text :: rest) ↔ (∃ result, read? text = some result) ∧ AllRead read? rest :=
  List.forall_mem_cons

theorem allRead_append {α : Type} {read? : String → Option α} {texts others : List String} :
    AllRead read? (texts ++ others) ↔ AllRead read? texts ∧ AllRead read? others :=
  List.forall_mem_append

theorem AllRead.mono {α : Type} {read? : String → Option α} {texts others : List String}
    (h : AllRead read? texts) (hsubset : others ⊆ texts) : AllRead read? others :=
  fun text htext => h text (hsubset htext)

/-- All texts are read or none. -/
theorem mapM_eq_some_iff {α : Type} {read? : String → Option α} {texts : List String}
    {results : List α} :
    texts.mapM read? = some results ↔ AllRead read? texts ∧ results = texts.filterMap read? := by
  induction texts generalizing results with
  | nil => simp [AllRead, eq_comm]
  | cons text rest ih =>
    rw [allRead_cons]
    cases hread : read? text with
    | none => simp [hread]
    | some result =>
      rw [List.filterMap_cons_some hread]
      constructor
      · intro h
        simp only [List.mapM_cons, hread, Option.pure_def, Option.bind_eq_bind,
          Option.bind_some, Option.bind_eq_some_iff] at h
        obtain ⟨others, hothers, hresults⟩ := h
        obtain ⟨hall, rfl⟩ := ih.1 hothers
        exact ⟨⟨⟨result, rfl⟩, hall⟩, (Option.some.inj hresults).symm⟩
      · rintro ⟨⟨-, hall⟩, rfl⟩
        simp [hread, ih.2 ⟨hall, rfl⟩]

section

variable (select? : String → Option (List String)) (exclude? : String → Option (String → Bool))
  (isDirectory : String → Bool)

/-- All paths that the patterns select, in the order of the patterns. -/
def selected (patterns : List String) : List String :=
  patterns.flatMap fun pattern => (select? pattern).getD []

/-- Whether a path is a directory or excluded. -/
def isPassedOver (excludes : List String) (path : String) : Bool :=
  isDirectory path || (excludes.filterMap exclude?).any fun test => test path

/-- **What is to be collected**: the paths of the patterns in their order, without
directories and excluded paths, each path once. -/
def selection (patterns excludes : List String) : List String :=
  firstSpellings ((selected select? patterns).filter fun path =>
    !isPassedOver exclude? isDirectory excludes path)

variable {select?} {exclude?} {isDirectory}

@[simp] theorem selected_nil : selected select? [] = [] := rfl

@[simp] theorem selected_cons (pattern : String) (rest : List String) :
    selected select? (pattern :: rest) = (select? pattern).getD [] ++ selected select? rest :=
  List.flatMap_cons

@[simp] theorem selected_append (patterns more : List String) :
    selected select? (patterns ++ more) = selected select? patterns ++ selected select? more :=
  List.flatMap_append

theorem mem_selected_iff {patterns : List String} {path : String} :
    path ∈ selected select? patterns ↔
      ∃ pattern ∈ patterns, path ∈ (select? pattern).getD [] := List.mem_flatMap

/-- The loop over the patterns ends with the first spellings of what was there and
what they select, if all of them are well formed. -/
theorem foldlM_keepPath_eq_some_iff (isPassed : String → Bool) (seen patterns files : List String) :
    patterns.foldlM (fun paths pattern => do
        let found ← select? pattern
        return found.foldl (keepPath isPassed) paths) (firstSpellings seen) = some files ↔
      AllRead select? patterns ∧
        files = firstSpellings
          (seen ++ (selected select? patterns).filter fun path => !isPassed path) := by
  induction patterns generalizing seen with
  | nil => simp [AllRead, eq_comm]
  | cons pattern rest ih =>
    rw [allRead_cons, List.foldlM_cons]
    cases hselect : select? pattern with
    | none => simp
    | some found =>
      have hstep : (do
          let found ← some found
          return found.foldl (keepPath isPassed) (firstSpellings seen)) =
            some (firstSpellings (seen ++ found.filter fun path => !isPassed path)) :=
        congrArg some (foldl_keepPath isPassed seen found)
      rw [hstep, selected_cons, hselect, Option.getD_some, List.filter_append, ← List.append_assoc]
      refine (ih (seen ++ found.filter fun path => !isPassed path)).trans ?_
      simp

/-- **What is collected, and when.** -/
theorem collectPaths_eq_some_iff {patterns excludes files : List String} :
    collectPaths select? exclude? isDirectory patterns excludes = some files ↔
      AllRead exclude? excludes ∧ AllRead select? patterns ∧
        files = selection select? exclude? isDirectory patterns excludes := by
  unfold collectPaths
  simp only [Option.bind_eq_bind, Option.bind_eq_some_iff, mapM_eq_some_iff]
  constructor
  · rintro ⟨tests, ⟨hexcludes, rfl⟩, h⟩
    obtain ⟨hpatterns, hfiles⟩ := (foldlM_keepPath_eq_some_iff _ [] patterns files).1 h
    exact ⟨hexcludes, hpatterns, hfiles⟩
  · rintro ⟨hexcludes, hpatterns, hfiles⟩
    exact ⟨_, ⟨hexcludes, rfl⟩, (foldlM_keepPath_eq_some_iff _ [] patterns files).2
      ⟨hpatterns, hfiles⟩⟩

theorem collectPaths_eq_none_iff {patterns excludes : List String} :
    collectPaths select? exclude? isDirectory patterns excludes = none ↔
      (∃ text ∈ excludes, exclude? text = none) ∨ ∃ text ∈ patterns, select? text = none := by
  rw [Option.eq_none_iff_forall_ne_some]
  simp only [ne_eq, collectPaths_eq_some_iff, AllRead, not_and]
  constructor
  · intro h
    by_contra hall
    have hexcludes : ∀ text ∈ excludes, exclude? text ≠ none := fun text htext hnone =>
      hall (.inl ⟨text, htext, hnone⟩)
    have hpatterns : ∀ text ∈ patterns, select? text ≠ none := fun text htext hnone =>
      hall (.inr ⟨text, htext, hnone⟩)
    exact h _ (fun text htext => Option.ne_none_iff_exists'.1 (hexcludes text htext))
      (fun text htext => Option.ne_none_iff_exists'.1 (hpatterns text htext)) rfl
  · rintro (⟨text, htext, hnone⟩ | ⟨text, htext, hnone⟩) files hexcludes hpatterns -
    · obtain ⟨_, hsome⟩ := hexcludes text htext
      exact absurd (hnone.symm.trans hsome) (by simp)
    · obtain ⟨_, hsome⟩ := hpatterns text htext
      exact absurd (hnone.symm.trans hsome) (by simp)

/-! ## §5. Other patterns, other excludes. -/

/-- A pattern that comes again changes nothing. -/
theorem collectPaths_repeated {front : List String} {pattern : String} (rest excludes : List String)
    (h : pattern ∈ front) :
    collectPaths select? exclude? isDirectory (front ++ pattern :: rest) excludes =
      collectPaths select? exclude? isDirectory (front ++ rest) excludes := by
  have hread : AllRead select? (front ++ pattern :: rest) ↔ AllRead select? (front ++ rest) := by
    rw [allRead_append, allRead_append, allRead_cons]
    exact ⟨fun hall => ⟨hall.1, hall.2.2⟩, fun hall => ⟨hall.1, hall.1 pattern h, hall.2⟩⟩
  have hsubset : (select? pattern).getD [] ⊆ selected select? front := fun path hpath =>
    mem_selected_iff.2 ⟨pattern, h, hpath⟩
  have hselection : selection select? exclude? isDirectory (front ++ pattern :: rest) excludes =
      selection select? exclude? isDirectory (front ++ rest) excludes := by
    simp only [selection, selected_append, selected_cons, List.filter_append]
    exact firstSpellings_append_of_subset _ (List.filter_subset _ hsubset)
  refine Option.ext fun files => ?_
  rw [collectPaths_eq_some_iff, collectPaths_eq_some_iff, hread, hselection]

/-- More patterns behind the others add paths behind the others. -/
theorem collectPaths_prefix {patterns more excludes files : List String}
    (h : collectPaths select? exclude? isDirectory (patterns ++ more) excludes = some files) :
    ∃ fewer, collectPaths select? exclude? isDirectory patterns excludes = some fewer ∧
      fewer <+: files := by
  obtain ⟨hexcludes, hpatterns, rfl⟩ := collectPaths_eq_some_iff.1 h
  refine ⟨_, collectPaths_eq_some_iff.2 ⟨hexcludes, (allRead_append.1 hpatterns).1, rfl⟩, ?_⟩
  simp only [selection, selected_append, List.filter_append]
  exact firstSpellings_prefix _ _

/-- **The same patterns in another order or number collect the same paths.** -/
theorem collectPaths_reordered {patterns others excludes files : List String}
    (hsame : ∀ pattern, pattern ∈ patterns ↔ pattern ∈ others)
    (h : collectPaths select? exclude? isDirectory patterns excludes = some files) :
    ∃ again, collectPaths select? exclude? isDirectory others excludes = some again ∧
      ∀ path, spells files path = spells again path := by
  obtain ⟨hexcludes, hpatterns, rfl⟩ := collectPaths_eq_some_iff.1 h
  refine ⟨_, collectPaths_eq_some_iff.2 ⟨hexcludes,
    hpatterns.mono fun pattern hpattern => (hsame pattern).2 hpattern, rfl⟩, fun path => ?_⟩
  rw [selection, selection, spells_firstSpellings, spells_firstSpellings, Bool.eq_iff_iff,
    spells_iff, spells_iff]
  simp only [List.mem_filter, mem_selected_iff, hsame]

theorem isPassedOver_added {before after : List String} {added : String} {test : String → Bool}
    (h : exclude? added = some test) (path : String) :
    isPassedOver exclude? isDirectory (before ++ added :: after) path =
      (test path || isPassedOver exclude? isDirectory (before ++ after) path) := by
  simp only [isPassedOver, List.filterMap_append, List.filterMap_cons_some h, List.any_append,
    List.any_cons]
  -- the same alternatives in another order
  cases test path <;> simp

theorem selection_added {patterns before after : List String} {added : String}
    {test : String → Bool} (h : exclude? added = some test) :
    selection select? exclude? isDirectory patterns (before ++ added :: after) =
      firstSpellings (((selected select? patterns).filter fun path =>
        !isPassedOver exclude? isDirectory (before ++ after) path).filter fun path =>
          !test path) := by
  rw [selection, List.filter_filter]
  simp only [isPassedOver_added h, Bool.not_or]

/-- **One more exclude.**  The paths that it does not match stay in their order;
what is new is another spelling of one that it matches. -/
theorem collectPaths_added {patterns before after files : List String} {added : String}
    {test : String → Bool} (htest : exclude? added = some test)
    (h : collectPaths select? exclude? isDirectory patterns (before ++ after) = some files) :
    ∃ fewer,
      collectPaths select? exclude? isDirectory patterns (before ++ added :: after) = some fewer ∧
      (files.filter fun path => !test path).Sublist fewer ∧
      (∀ path ∈ fewer, test path = false ∧
        (path ∈ files ∨ ∃ other ∈ files, samePath path other = true ∧ test other = true)) ∧
      (AgreesOnSpellings test (selected select? patterns) →
        fewer = files.filter fun path => !test path) := by
  obtain ⟨hexcludes, hpatterns, rfl⟩ := collectPaths_eq_some_iff.1 h
  obtain ⟨hbefore, hafter⟩ := allRead_append.1 hexcludes
  refine ⟨_, collectPaths_eq_some_iff.2 ⟨allRead_append.2 ⟨hbefore, allRead_cons.2
    ⟨⟨test, htest⟩, hafter⟩⟩, hpatterns, rfl⟩, ?_⟩
  rw [selection_added htest]
  refine ⟨filter_firstSpellings_sublist _ _, fun path hpath => ?_, fun hagrees => ?_⟩
  · simpa [selection] using mem_firstSpellings_of_filter hpath
  · refine firstSpellings_filter _ fun a ha b hb hsame => ?_
    rw [hagrees a (List.mem_of_mem_filter ha) b (List.mem_of_mem_filter hb) hsame]

end

/-! ## §6. The files of a tree. -/

/-- Nothing is collected from a tree exactly if some text is no pattern. -/
theorem FileTree.collect_eq_malformedPattern_iff {tree : FileTree}
    {patterns excludes : List String} :
    tree.collect patterns excludes = .error .malformedPattern ↔
      (∃ text ∈ excludes, Pattern.parse? text.toList = none) ∨
        ∃ text ∈ patterns, PathPattern.parse? text = none := by
  have hnone : tree.collect patterns excludes = .error .malformedPattern ↔
      collectPaths (fun pattern => (PathPattern.parse? pattern).map tree.paths)
        (fun pattern => (Pattern.parse? pattern.toList).map Pattern.accepts)
        tree.isDirectory patterns excludes = none := by
    unfold collect
    split <;> simp [*]
  rw [hnone, collectPaths_eq_none_iff]
  simp only [Option.map_eq_none_iff]

/-- **The collected paths follow the patterns and the excludes**, whatever the
patterns select and the excludes match:

* what is collected are the paths of the patterns in their order, without
  directories and excluded paths, each path where it is found first;
* nothing is collected if a pattern or an exclude is malformed, and from a tree
  of files this is the failure `malformedPattern`;
* a pattern that comes again changes nothing, more patterns add paths behind the
  others, and the same patterns in another order or number collect the same paths;
* one more exclude leaves the paths that it does not match, in their order, and
  none that it matches.  What is new is another spelling of a path that it took
  away, and there is none if it matches all spellings of a path or none. -/
theorem collectPaths_follows_patterns
    (select? : String → Option (List String)) (exclude? : String → Option (String → Bool))
    (isDirectory : String → Bool) :
    let collect := collectPaths select? exclude? isDirectory
    (∀ patterns excludes, AllRead exclude? excludes → AllRead select? patterns →
      collect patterns excludes =
        some (selection select? exclude? isDirectory patterns excludes)) ∧
    (∀ patterns excludes, collect patterns excludes = none ↔
      (∃ text ∈ excludes, exclude? text = none) ∨ ∃ text ∈ patterns, select? text = none) ∧
    (∀ (tree : FileTree) patterns excludes,
      tree.collect patterns excludes = .error .malformedPattern ↔
        (∃ text ∈ excludes, Pattern.parse? text.toList = none) ∨
          ∃ text ∈ patterns, PathPattern.parse? text = none) ∧
    (∀ front pattern rest excludes, pattern ∈ front →
      collect (front ++ pattern :: rest) excludes = collect (front ++ rest) excludes) ∧
    (∀ patterns more excludes files, collect (patterns ++ more) excludes = some files →
      ∃ fewer, collect patterns excludes = some fewer ∧ fewer <+: files) ∧
    (∀ patterns others excludes files, (∀ pattern, pattern ∈ patterns ↔ pattern ∈ others) →
      collect patterns excludes = some files →
      ∃ again, collect others excludes = some again ∧
        ∀ path, spells files path = spells again path) ∧
    (∀ patterns before added after files test, exclude? added = some test →
      collect patterns (before ++ after) = some files →
      ∃ fewer, collect patterns (before ++ added :: after) = some fewer ∧
        (files.filter fun path => !test path).Sublist fewer ∧
        (∀ path ∈ fewer, test path = false ∧
          (path ∈ files ∨ ∃ other ∈ files, samePath path other = true ∧ test other = true)) ∧
        (AgreesOnSpellings test (selected select? patterns) →
          fewer = files.filter fun path => !test path)) := by
  refine ⟨?collected, ?malformed, ?failure, ?repeated, ?appended, ?reordered, ?excluded⟩
  case collected =>
    intro patterns excludes hexcludes hpatterns
    exact collectPaths_eq_some_iff.2 ⟨hexcludes, hpatterns, rfl⟩
  case malformed => exact fun patterns excludes => collectPaths_eq_none_iff
  case failure => exact fun tree patterns excludes => FileTree.collect_eq_malformedPattern_iff
  case repeated =>
    exact fun front pattern rest excludes h => collectPaths_repeated rest excludes h
  case appended => exact fun patterns more excludes files h => collectPaths_prefix h
  case reordered =>
    exact fun patterns others excludes files hsame h => collectPaths_reordered hsame h
  case excluded =>
    exact fun patterns before added after files test htest h => collectPaths_added htest h

/-- The last statement where an exclude matches both spellings of a path, and the
others on the way. -/
theorem collectPaths_follows_patterns_two_spellings :
    let select? (pattern : String) : Option (List String) := some [pattern, "c"]
    let exclude? (text : String) : Option (String → Bool) :=
      some fun path => decide (path.toList.getLast? = text.toList.getLast?)
    let isDirectory (path : String) : Bool := decide (path = "d")
    let collect := collectPaths select? exclude? isDirectory
    collect ["a/b", "a/./b", "d"] [] = some ["a/b", "c"] ∧
      collect ["a/b", "a/./b", "d", "a/b"] [] = collect ["a/b", "a/./b", "d"] [] ∧
      (∃ again, collect ["d", "a/./b", "a/b"] [] = some again ∧
        ∀ path, spells ["a/b", "c"] path = spells again path) ∧
      collect ["a/b", "a/./b", "d"] ["b"] = some ["c"] := by
  intro select? exclude? isDirectory collect
  obtain ⟨hcollected, -, -, hrepeated, -, hreordered, hexcluded⟩ :=
    collectPaths_follows_patterns select? exclude? isDirectory
  have hread : AllRead exclude? [] := fun _ h => absurd h List.not_mem_nil
  have hfiles : collect ["a/b", "a/./b", "d"] [] = some ["a/b", "c"] :=
    (hcollected _ _ hread fun _ _ => ⟨_, rfl⟩).trans rfl
  refine ⟨hfiles, hrepeated ["a/b", "a/./b", "d"] "a/b" [] [] (by decide), ?_, ?_⟩
  · exact hreordered _ _ _ _ (fun pattern => by simp; tauto) hfiles
  · obtain ⟨fewer, hfewer, -, -, hexact⟩ := hexcluded _ [] "b" [] _ _ rfl hfiles
    exact hfewer.trans (congrArg some ((hexact (by decide +kernel)).trans rfl))

/-- **An exclude can bring in a path**: the two patterns select one file in two
spellings, and the exclude matches only the one that was kept. -/
theorem exclude_brings_spelling :
    let tree := FileTree.empty.addFile "sub/e.html" []
    let patterns := ["sub/./e.html", "sub/e.html"]
    (Pattern.parse? "sub/./e.html".toList).map (fun pattern => pattern.accepts "sub/./e.html") =
        some true ∧
      tree.collect patterns [] = .ok ["sub/./e.html"] ∧
      tree.collect patterns ["sub/./e.html"] = .ok ["sub/e.html"] := by
  refine ⟨?_, ?_, ?_⟩ <;> decide +kernel

end FluidClamp
