/-
  FluidClamp.Proofs.Files.Names
  ─────────────────────────────
  **THE NAME AT THE END OF A PATH.**

  A path that leads to a file, or to a place where one can be made, ends in a name:

      path      =  folder ++ name
      location  =  where the folder leads ++ [name]

  (`EndsIn`).  Every other end, a slash or some dots, leads to a directory
  (`exists_endsIn`).  The same path with another extension has the same folder and
  another name, so the two lead to one place exactly if the extension is the one
  that the path had (`locate?_withExtension_eq_iff`).
-/
import FluidClamp.Proofs.Files.Steps
import FluidClamp.Proofs.Text.Words
import Mathlib.Data.List.Induction

namespace FluidClamp

namespace Path

/-! ## §1. Folders and names. -/

/-- **A path ends in a name**, which is neither empty nor made of dots that mean a
directory. -/
structure EndsIn (path : String) (folder name : List Char) : Prop where
  text : path.toList = folder ++ name
  folder_end : ∀ c ∈ folder.getLast?, c = '/'
  slashless : ∀ c ∈ name, c ≠ '/'
  ne_nil : name ≠ []
  ne_dot : name ≠ ['.']
  ne_dots : name ≠ ['.', '.']

/-- The text up to the last slash, and what follows it. -/
theorem exists_last_slash (text : List Char) :
    ∃ folder name, text = folder ++ name ∧ (∀ c ∈ folder.getLast?, c = '/') ∧
      ∀ c ∈ name, c ≠ '/' := by
  induction text using List.reverseRecOn with
  | nil => exact ⟨[], [], rfl, by simp, by simp⟩
  | append_singleton text c ih =>
    obtain ⟨folder, name, rfl, hfolder, hname⟩ := ih
    by_cases hc : c = '/'
    · refine ⟨folder ++ name ++ [c], [], (List.append_nil _).symm, ?_, by simp⟩
      intro d hd
      rw [List.getLast?_concat] at hd
      exact Option.some.inj hd ▸ hc
    · refine ⟨folder, name ++ [c], List.append_assoc _ _ _, hfolder, ?_⟩
      intro d hd
      rcases List.mem_append.1 hd with hd | hd
      · exact hname d hd
      · exact List.mem_singleton.1 hd ▸ hc

/-- A text does not end in a slash if something follows the last one. -/
theorem getLast?_append_ne {folder name : List Char} (hname : ∀ c ∈ name, c ≠ '/')
    (hne : name ≠ []) : (folder ++ name).getLast? ≠ some '/' := by
  intro hlast
  obtain ⟨front, last, rfl⟩ := (List.eq_nil_or_concat' name).resolve_left hne
  rw [← List.append_assoc, List.getLast?_concat] at hlast
  exact hname last (by simp) (Option.some.inj hlast)

/-- Behind a slash there is one more piece. -/
theorem pieces_append {path : String} {folder name : List Char}
    (htext : path.toList = folder ++ name) (hfolder : ∀ c ∈ folder.getLast?, c = '/')
    (hname : ∀ c ∈ name, c ≠ '/') (hne : name ≠ []) :
    pieces path = pieces (String.ofList folder) ++ [String.ofList name] := by
  have hslash : decide ('/' = '/') = true := rfl
  have hwhole : splitOn (fun c => decide (c = '/')) name = [name] :=
    splitOn_of_forall fun c hc => decide_eq_false (hname c hc)
  have hkept : !name.isEmpty := by simpa using hne
  unfold pieces
  rw [htext, String.toList_ofList]
  rcases List.eq_nil_or_concat' folder with rfl | ⟨front, last, rfl⟩
  · simp [hwhole, hkept, splitOn]
  · obtain rfl : last = '/' := hfolder last (by simp)
    have hempty : splitOn (fun c => decide (c = '/')) [] = [[]] := rfl
    rw [List.append_assoc, List.singleton_append, splitOn_append_mark hslash,
      splitOn_append_mark hslash, hwhole, hempty]
    simp [List.filter_append, hkept]

namespace EndsIn

variable {path : String} {folder name : List Char}

theorem pieces_eq (h : EndsIn path folder name) :
    pieces path = pieces (String.ofList folder) ++ [String.ofList name] :=
  pieces_append h.text h.folder_end h.slashless h.ne_nil

/-- The folder says whether the path is absolute. -/
theorem root_eq (h : EndsIn path folder name) : root path = root (String.ofList folder) := by
  have hhead : path.toList.head? = some '/' ↔ folder.head? = some '/' := by
    rw [h.text]
    cases folder with
    | nil => exact ⟨fun hname => absurd rfl (h.slashless _ (List.mem_of_mem_head? hname)), nofun⟩
    | cons c folder => rfl
  unfold root isAbsolute
  simp only [hhead, String.toList_ofList]

theorem parts_eq (h : EndsIn path folder name) :
    parts path = root (String.ofList folder) ++ pieces (String.ofList folder) ++
      [String.ofList name] := by
  unfold parts
  rw [h.root_eq, h.pieces_eq, h.text, if_neg (getLast?_append_ne h.slashless h.ne_nil),
    List.append_nil, List.append_assoc]

theorem ofList_ne_dot (h : EndsIn path folder name) : String.ofList name ≠ "." := by
  intro heq
  exact h.ne_dot (by simpa using congrArg String.toList heq)

theorem ofList_ne_dots (h : EndsIn path folder name) : String.ofList name ≠ ".." := by
  intro heq
  exact h.ne_dots (by simpa using congrArg String.toList heq)

theorem ofList_ne_slash (h : EndsIn path folder name) : String.ofList name ≠ "/" := by
  intro heq
  have hname : name = ['/'] := by simpa using congrArg String.toList heq
  exact h.slashless '/' (by simp [hname]) rfl

/-- The name is the last component. -/
theorem fileName?_eq (h : EndsIn path folder name) : fileName? path = some (String.ofList name) := by
  have hlast : (components path).getLast? = some (String.ofList name) := by
    have hkept : [String.ofList name].filter (fun piece => decide (piece ≠ ".")) =
        [String.ofList name] := by simp [h.ofList_ne_dot]
    unfold components
    rw [h.pieces_eq]
    split
    · rw [List.filter_append, hkept, ← List.cons_append, List.getLast?_concat]
    · cases pieces (String.ofList folder) with
      | nil => rfl
      | cons first rest =>
        simp only [List.cons_append]
        rw [List.filter_append, hkept, ← List.cons_append, List.getLast?_concat]
  unfold fileName?
  simp only [hlast, h.ofList_ne_dot, h.ofList_ne_dots, h.ofList_ne_slash, or_self, if_false]

theorem extension?_eq (h : EndsIn path folder name) :
    extension? path = (cutName name).2.map String.ofList := by
  unfold extension?
  rw [h.fileName?_eq, Option.bind_some, String.toList_ofList]

/-- Nothing stands behind the name. -/
theorem dropTail_eq (h : EndsIn path folder name) :
    dropTail path.toList.reverse = path.toList.reverse := by
  obtain ⟨front, last, rfl⟩ := (List.eq_nil_or_concat' name).resolve_left h.ne_nil
  have hlast : last ≠ '/' := h.slashless last (by simp)
  rw [h.text, ← List.append_assoc, List.reverse_concat]
  -- the text is only shortened at a slash, or at a dot behind one
  unfold dropTail
  split
  · next heq => exact absurd (List.cons.inj heq).1 hlast
  · next rest heq =>
    obtain ⟨rfl, hrest⟩ := List.cons.inj heq
    rcases List.eq_nil_or_concat' front with rfl | ⟨before, c, rfl⟩
    · exact absurd rfl h.ne_dot
    · rw [← List.append_assoc, List.reverse_concat] at hrest
      exact absurd (List.cons.inj hrest).1 (h.slashless c (by simp))
  · rfl

/-- **The path with another extension** has the same folder. -/
theorem toList_withExtension (h : EndsIn path folder name) (extension : String) :
    (withExtension path extension).toList =
      folder ++ ((cutName name).1 ++ '.' :: extension.toList) := by
  unfold withExtension
  rw [h.fileName?_eq]
  simp only [h.dropTail_eq, List.reverse_reverse, String.toList_append, String.toList_ofList]
  have hfolder : path.toList.take (path.toList.length - (String.ofList name).length) = folder := by
    rw [h.text, String.length_ofList, List.length_append, Nat.add_sub_cancel, List.take_left]
  rw [hfolder]
  simp

end EndsIn

/-! ## §2. Extensions. -/

/-- A name is cut at a dot that is not its first character, or not at all. -/
theorem cutName_cases (name : List Char) :
    (∃ stem extension, cutName name = (stem, some extension) ∧ stem ≠ [] ∧
      name = stem ++ '.' :: extension) ∨ cutName name = (name, none) := by
  unfold cutName
  simp only
  split
  · next c stem heq =>
    refine .inl ⟨_, _, rfl, by simp, ?_⟩
    have hreverse : name.reverse =
        name.reverse.takeWhile (fun c => decide (c ≠ '.')) ++ '.' :: c :: stem := by
      rw [← heq, List.takeWhile_append_dropWhile]
    have hname := congrArg List.reverse hreverse
    rw [List.reverse_reverse, List.reverse_append, List.reverse_cons, List.append_assoc,
      List.singleton_append] at hname
    exact hname
  · exact .inr rfl

/-- **A name keeps itself under the extension that it has**, and under no other. -/
theorem cutName_append_eq_iff {name extension : List Char} :
    (cutName name).1 ++ '.' :: extension = name ↔ (cutName name).2 = some extension := by
  rcases cutName_cases name with ⟨stem, own, hcut, -, hname⟩ | hcut
  · rw [hcut]
    constructor
    · intro heq
      rw [hname] at heq
      rw [(List.cons.inj (List.append_cancel_left heq)).2]
    · intro heq
      rw [hname, Option.some.inj heq]
  · rw [hcut]
    refine ⟨fun heq => ?_, fun heq => nomatch heq⟩
    have hlength := congrArg List.length heq
    simp at hlength

-- the dot that a name begins with does not count, and only the last one cuts
example : cutName ".tmp".toList = (".tmp".toList, none) := by decide +kernel

example : cutName "a.b.tmp".toList = ("a.b".toList, some "tmp".toList) := by decide +kernel

/-- With another extension a path still ends in a name. -/
theorem EndsIn.withExtension {path : String} {folder name : List Char}
    (h : EndsIn path folder name) {extension : String} (hne : extension ≠ "")
    (hslash : ∀ c ∈ extension.toList, c ≠ '/') :
    EndsIn (withExtension path extension) folder
      ((cutName name).1 ++ '.' :: extension.toList) := by
  have hstem : (cutName name).1 ≠ [] ∧ ∀ c ∈ (cutName name).1, c ≠ '/' := by
    rcases cutName_cases name with ⟨stem, own, hcut, hstem, hname⟩ | hcut
    · rw [hcut]
      refine ⟨hstem, fun c hc => h.slashless c ?_⟩
      rw [hname]
      exact List.mem_append_left _ hc
    · rw [hcut]
      exact ⟨h.ne_nil, h.slashless⟩
  have hlong : 3 ≤ ((cutName name).1 ++ '.' :: extension.toList).length := by
    have hfirst := List.length_pos_iff.2 hstem.1
    have hsecond : 0 < extension.toList.length := by
      refine List.length_pos_iff.2 fun hnil => hne ?_
      simpa using congrArg String.ofList hnil
    simp only [List.length_append, List.length_cons]
    omega
  refine ⟨h.toList_withExtension extension, h.folder_end, ?_, ?_, ?_, ?_⟩
  · intro c hc
    rcases List.mem_append.1 hc with hc | hc
    · exact hstem.2 c hc
    · rcases List.mem_cons.1 hc with rfl | hc
      · decide
      · exact hslash c hc
  -- the name is too long to be nothing but dots
  all_goals
    intro heq
    rw [heq] at hlong
    exact absurd hlong (by decide)

/-- The path stays the same under the extension that it has. -/
theorem EndsIn.withExtension_eq_self {path : String} {folder name : List Char}
    (h : EndsIn path folder name) {extension : String} (hextension : extension? path = some extension) :
    Path.withExtension path extension = path := by
  have hcut : (cutName name).2 = some extension.toList := by
    rw [h.extension?_eq, Option.map_eq_some_iff] at hextension
    obtain ⟨own, hown, rfl⟩ := hextension
    rw [hown, String.toList_ofList]
  rw [← String.toList_inj, h.toList_withExtension, cutName_append_eq_iff.2 hcut, h.text]

end Path

namespace FileTree

open FluidClamp.Path

variable {tree : FileTree} {path : String} {location : Location}

/-! ## §3. Where a path ends. -/

/-- Every location on the way to this one is a directory. -/
def IsReached (tree : FileTree) (location : Location) : Prop :=
  ∀ front, front <+: location → front ≠ location → tree.isDirectoryAt front = true

/-- On the way to the working directory there are only directories. -/
theorem isReached_here (tree : FileTree) : tree.IsReached tree.here :=
  fun _ hfront _ => isDirectoryAt_of_isAbove (List.isPrefixOf_iff_prefix.2 hfront)

/-- A part is the root, a dot, two dots or a name. -/
theorem follow_cases {next : Location} {part : String}
    (h : tree.follow location part = some next) :
    (part = "/" ∧ next = []) ∨
    (part = "." ∧ next = location ∧ tree.isDirectoryAt location = true) ∨
    (part = ".." ∧ next = location.dropLast ∧ tree.isDirectoryAt location = true) ∨
    (part ≠ "." ∧ part ≠ ".." ∧ next = location ++ [part] ∧
      tree.isDirectoryAt location = true) := by
  have hplace := isDirectoryAt_or_of_follow h
  unfold follow at h
  split at h
  · next hroot => exact .inl ⟨hroot, (Option.some.inj h).symm⟩
  · next hroot =>
    have hdirectory := hplace.resolve_right hroot
    split at h
    · exact nomatch h
    · split at h
      · next hdot => exact .inr (.inl ⟨hdot, (Option.some.inj h).symm, hdirectory⟩)
      · next hdot =>
        split at h
        · next hdots => exact .inr (.inr (.inl ⟨hdots, (Option.some.inj h).symm, hdirectory⟩))
        · next hdots =>
          exact .inr (.inr (.inr ⟨hdot, hdots, (Option.some.inj h).symm, hdirectory⟩))

/-- **One part further**, every location on the way is still a directory; and the
end is one, unless the part is a name. -/
theorem IsReached.follow (hreached : tree.IsReached location) {next : Location} {part : String}
    (h : tree.follow location part = some next) :
    tree.IsReached next ∧
      (tree.isDirectoryAt next = true ∨ part ≠ "." ∧ part ≠ "..") := by
  -- a location that is followed from is a directory itself
  have hway (hdirectory : tree.isDirectoryAt location = true) {front : Location}
      (hfront : front <+: location) : tree.isDirectoryAt front = true := by
    by_cases heq : front = location
    · exact heq ▸ hdirectory
    · exact hreached front hfront heq
  rcases follow_cases h with ⟨-, rfl⟩ | ⟨-, rfl, hdirectory⟩ | ⟨-, rfl, hdirectory⟩ |
    ⟨hdot, hdots, rfl, hdirectory⟩
  · exact ⟨fun front hfront hne => absurd (List.prefix_nil.1 hfront) hne,
      .inl (isDirectoryAt_of_isAbove rfl)⟩
  · exact ⟨hreached, .inl hdirectory⟩
  · have hshorter : location.dropLast <+: location := List.dropLast_prefix location
    exact ⟨fun front hfront _ => hway hdirectory (hfront.trans hshorter),
      .inl (hway hdirectory hshorter)⟩
  · refine ⟨fun front hfront hne => ?_, .inr ⟨hdot, hdots⟩⟩
    rcases List.prefix_concat_iff.1 hfront with rfl | hfront
    · exact absurd rfl hne
    · exact hway hdirectory hfront

theorem isReached_walk {start : Location} {parts : List String} (hstart : tree.IsReached start)
    (h : tree.walk start parts = some location) : tree.IsReached location := by
  induction parts generalizing start with
  | nil => exact Option.some.inj h ▸ hstart
  | cons part parts ih =>
    obtain ⟨next, hnext, hrest⟩ := Option.bind_eq_some_iff.1 h
    exact ih (hstart.follow hnext).1 hrest

/-- The last part is followed from where the others lead. -/
theorem exists_of_walk_append {parts : List String} {last : String}
    (h : tree.walk tree.here (parts ++ [last]) = some location) :
    ∃ directory, tree.walk tree.here parts = some directory ∧
      tree.follow directory last = some location ∧
      (tree.isDirectoryAt location = true ∨ last ≠ "." ∧ last ≠ "..") := by
  unfold walk at h
  rw [List.foldlM_append] at h
  obtain ⟨directory, hdirectory, hlast⟩ := Option.bind_eq_some_iff.1 h
  have hfollow : tree.follow directory last = some location := by
    simpa using hlast
  exact ⟨directory, hdirectory, hfollow,
    ((isReached_walk tree.isReached_here hdirectory).follow hfollow).2⟩

theorem walk_of_locate? (h : tree.locate? path = some location) :
    path ≠ "" ∧ tree.walk tree.here (parts path) = some location := by
  unfold locate? at h
  split at h
  · exact nomatch h
  · next hpath => exact ⟨hpath, h⟩

/-- **A path that leads to no directory ends in a name.** -/
theorem exists_endsIn (h : tree.locate? path = some location)
    (hfree : tree.entry? location ≠ some .directory) : ∃ folder name, EndsIn path folder name := by
  obtain ⟨hne, hwalk⟩ := walk_of_locate? h
  have hnot : ¬ tree.isDirectoryAt location = true := fun hdirectory =>
    hfree (isDirectoryAt_iff.1 hdirectory)
  obtain ⟨folder, name, htext, hfolder, hname⟩ := exists_last_slash path.toList
  have hnil : name ≠ [] := by
    rintro rfl
    -- a slash at the end asks for a directory
    rw [List.append_nil] at htext
    have hlast : path.toList.getLast? = some '/' := by
      rw [htext]
      cases hend : folder.getLast? with
      | some c => rw [hfolder c hend]
      | none =>
        rw [List.getLast?_eq_none_iff] at hend
        rw [hend] at htext
        exact absurd (by simpa using congrArg String.ofList htext) hne
    unfold parts at hwalk
    rw [if_pos hlast] at hwalk
    obtain ⟨-, -, -, hend⟩ := exists_of_walk_append hwalk
    exact hend.elim hnot fun hnames => hnames.1 rfl
  have hparts : parts path =
      root path ++ pieces (String.ofList folder) ++ [String.ofList name] := by
    unfold parts
    rw [pieces_append htext hfolder hname hnil, htext, if_neg (getLast?_append_ne hname hnil),
      List.append_nil, List.append_assoc]
  rw [hparts] at hwalk
  obtain ⟨-, -, -, hend⟩ := exists_of_walk_append hwalk
  obtain ⟨hdot, hdots⟩ := hend.resolve_left hnot
  refine ⟨folder, name, htext, hfolder, hname, hnil, ?_, ?_⟩
  · rintro rfl
    exact hdot rfl
  · rintro rfl
    exact hdots rfl

/-- It leads to that name in the directory of the folder. -/
theorem exists_of_endsIn {folder name : List Char} (hends : EndsIn path folder name)
    (h : tree.locate? path = some location) :
    ∃ directory,
      tree.walk tree.here (root (String.ofList folder) ++ pieces (String.ofList folder)) =
        some directory ∧ location = directory ++ [String.ofList name] := by
  obtain ⟨-, hwalk⟩ := walk_of_locate? h
  rw [hends.parts_eq] at hwalk
  obtain ⟨directory, hdirectory, hfollow, -⟩ := exists_of_walk_append hwalk
  refine ⟨directory, hdirectory, ?_⟩
  rcases follow_cases hfollow with ⟨hroot, -⟩ | ⟨hdot, -⟩ | ⟨hdots, -⟩ | ⟨-, -, hnext, -⟩
  · exact absurd hroot hends.ofList_ne_slash
  · exact absurd hdot hends.ofList_ne_dot
  · exact absurd hdots hends.ofList_ne_dots
  · exact hnext

/-- **With another extension, a path leads elsewhere**, unless it is the extension
that the path has. -/
theorem locate?_withExtension_eq_iff {extension : String} (hne : extension ≠ "")
    (hslash : ∀ c ∈ extension.toList, c ≠ '/') {place : Location}
    (hlocation : tree.locate? path = some location)
    (hfree : tree.entry? location ≠ some .directory)
    (hplace : tree.locate? (withExtension path extension) = some place) :
    location = place ↔ extension? path = some extension := by
  obtain ⟨folder, name, hends⟩ := exists_endsIn hlocation hfree
  obtain ⟨directory, hdirectory, rfl⟩ := exists_of_endsIn hends hlocation
  obtain ⟨other, hother, rfl⟩ := exists_of_endsIn (hends.withExtension hne hslash) hplace
  obtain rfl : directory = other := Option.some.inj (hdirectory.symm.trans hother)
  rw [hends.extension?_eq, List.append_cancel_left_eq, List.singleton_inj, String.ofList_inj,
    eq_comm, cutName_append_eq_iff, Option.map_eq_some_iff]
  constructor
  · intro hcut
    exact ⟨_, hcut, String.ofList_toList⟩
  · rintro ⟨own, hown, rfl⟩
    rw [hown, String.toList_ofList]

end FileTree

end FluidClamp
