/-
  FluidClamp.Proofs.Screens.Entries
  ─────────────────────────────────
  **WHAT A LIST OF ENTRIES SAYS.**

  The table of a list of entries is built one entry at a time.  What it says in
  the end is read off the list as it stands: the last text that the list gives to
  a name (`lastWidth?`), for the reserved names as a default, for every other name
  as the width of a screen.  Entries without a text take nothing back.
-/
import FluidClamp.Screens

namespace FluidClamp.Screens

/-! ## §1. Reading the list. -/

/-- The text that one entry gives to a name. -/
def givenWidth? (name : String) (entry : String × Option String) : Option String :=
  if entry.1 = name then entry.2 else none

/-- **The last text that the entries give to a name.** -/
def lastWidth? (entries : List (String × Option String)) (name : String) : Option String :=
  (entries.filterMap (givenWidth? name)).getLast?

/-- A name that stands for a default. -/
def IsReserved (name : String) : Prop := ∃ side, name = reservedName side

/-- **The entries name a screen of this width.** -/
def Names (entries : List (String × Option String)) (name width : String) : Prop :=
  ¬ IsReserved name ∧ lastWidth? entries name = some width

/-- The entries name such a screen. -/
def IsName (entries : List (String × Option String)) (name : String) : Prop :=
  ∃ width, Names entries name width

theorem lastWidth?_cons (entry : String × Option String)
    (entries : List (String × Option String)) (name : String) :
    lastWidth? (entry :: entries) name =
      (lastWidth? entries name).or (givenWidth? name entry) := by
  unfold lastWidth?
  cases hgiven : givenWidth? name entry with
  | none => rw [List.filterMap_cons_none hgiven, Option.or_none]
  | some width =>
    rw [List.filterMap_cons_some hgiven, List.getLast?_cons]
    cases (entries.filterMap (givenWidth? name)).getLast? with
    | none => rfl
    | some last => rfl

/-! ## §2. One entry. -/

theorem reservedName_ne : reservedName .start ≠ reservedName .finish := by decide

theorem isReserved_iff {name : String} :
    IsReserved name ↔ name = reservedName .start ∨ name = reservedName .finish := by
  constructor
  · intro hgiven
    obtain ⟨side, rfl⟩ := hgiven
    cases side with
    | start => exact .inl rfl
    | finish => exact .inr rfl
  · intro h
    rcases h with h | h
    · exact ⟨.start, h⟩
    · exact ⟨.finish, h⟩

theorem givenWidth?_self (name : String) (width : Option String) :
    givenWidth? name (name, width) = width := if_pos rfl

theorem givenWidth?_of_ne {name other : String} (h : other ≠ name) (width : Option String) :
    givenWidth? name (other, width) = none := if_neg h

theorem givenWidth?_none (name other : String) : givenWidth? name (other, none) = none :=
  ite_self none

theorem addEntry_none (screens : Screens) (name : String) :
    screens.addEntry (name, none) = screens := rfl

theorem addEntry_some (screens : Screens) (name width : String) :
    screens.addEntry (name, some width) =
      if name = reservedName .start then { screens with defaultStart := some width }
      else if name = reservedName .finish then { screens with defaultFinish := some width }
      else screens.insert name width := rfl

theorem addEntry_start (screens : Screens) (width : String) :
    screens.addEntry (reservedName .start, some width) =
      { screens with defaultStart := some width } := by
  rw [addEntry_some, if_pos rfl]

theorem addEntry_finish (screens : Screens) (width : String) :
    screens.addEntry (reservedName .finish, some width) =
      { screens with defaultFinish := some width } := by
  rw [addEntry_some, if_neg reservedName_ne.symm, if_pos rfl]

theorem addEntry_of_not_isReserved (screens : Screens) {name : String} (h : ¬ IsReserved name)
    (width : String) : screens.addEntry (name, some width) = screens.insert name width := by
  rw [isReserved_iff, not_or] at h
  rw [addEntry_some, if_neg h.1, if_neg h.2]

/-- **What one entry does to a default**: it sets it, or leaves it alone. -/
theorem default?_addEntry (screens : Screens) (entry : String × Option String) (side : Side) :
    (screens.addEntry entry).default? side =
      (givenWidth? (reservedName side) entry).or (screens.default? side) := by
  obtain ⟨name, _ | width⟩ := entry
  · rw [addEntry_none, givenWidth?_none, Option.none_or]
  · by_cases h : IsReserved name
    · -- it sets the default of its own side and keeps that of the other
      obtain ⟨own, rfl⟩ := h
      cases own with
      | start =>
        rw [addEntry_start]
        cases side with
        | start => rw [givenWidth?_self]; rfl
        | finish => rw [givenWidth?_of_ne reservedName_ne]; rfl
      | finish =>
        rw [addEntry_finish]
        cases side with
        | start => rw [givenWidth?_of_ne reservedName_ne.symm]; rfl
        | finish => rw [givenWidth?_self]; rfl
    · have hne : name ≠ reservedName side := fun heq => h ⟨side, heq⟩
      rw [addEntry_of_not_isReserved _ h, givenWidth?_of_ne hne, Option.none_or]
      cases side with
      | start => rfl
      | finish => rfl

theorem get?_insert (screens : Screens) (name width other : String) :
    (screens.insert name width).get? other =
      if other = name then some width else screens.get? other :=
  OrderedMap.get?_insert screens.named name other width

/-- An entry with a reserved name names no screen. -/
theorem get?_addEntry_reserved (screens : Screens) (side : Side) (width : Option String)
    (name : String) :
    (screens.addEntry (reservedName side, width)).get? name = screens.get? name := by
  cases width with
  | none => rfl
  | some width =>
    cases side with
    | start => rw [addEntry_start]; rfl
    | finish => rw [addEntry_finish]; rfl

/-- **What one entry does to a name** that is not reserved. -/
theorem get?_addEntry (screens : Screens) (entry : String × Option String) {name : String}
    (h : ¬ IsReserved name) :
    (screens.addEntry entry).get? name = (givenWidth? name entry).or (screens.get? name) := by
  obtain ⟨key, _ | width⟩ := entry
  · rw [addEntry_none, givenWidth?_none, Option.none_or]
  · by_cases hkey : IsReserved key
    · have hne : key ≠ name := by
        rintro rfl
        exact h hkey
      obtain ⟨side, rfl⟩ := hkey
      rw [get?_addEntry_reserved, givenWidth?_of_ne hne, Option.none_or]
    · rw [addEntry_of_not_isReserved _ hkey, get?_insert]
      by_cases hsame : name = key
      · subst hsame
        rw [if_pos rfl, givenWidth?_self, Option.some_or]
      · rw [if_neg hsame, givenWidth?_of_ne (Ne.symm hsame), Option.none_or]

/-- No entry names a screen by a reserved name. -/
theorem get?_addEntry_of_isReserved (screens : Screens) (entry : String × Option String)
    {name : String} (h : IsReserved name) :
    (screens.addEntry entry).get? name = screens.get? name := by
  obtain ⟨key, _ | width⟩ := entry
  · rfl
  · by_cases hkey : IsReserved key
    · obtain ⟨side, rfl⟩ := hkey
      exact get?_addEntry_reserved screens side (some width) name
    · have hne : name ≠ key := by
        rintro rfl
        exact hkey h
      rw [addEntry_of_not_isReserved _ hkey, get?_insert, if_neg hne]

/-! ## §3. The whole list. -/

theorem default?_foldl_addEntry (entries : List (String × Option String)) (screens : Screens)
    (side : Side) :
    (entries.foldl addEntry screens).default? side =
      (lastWidth? entries (reservedName side)).or (screens.default? side) := by
  induction entries generalizing screens with
  | nil => rfl
  | cons entry entries ih =>
    rw [List.foldl_cons, ih, default?_addEntry, lastWidth?_cons, Option.or_assoc]

theorem get?_foldl_addEntry (entries : List (String × Option String)) (screens : Screens)
    {name : String} (h : ¬ IsReserved name) :
    (entries.foldl addEntry screens).get? name =
      (lastWidth? entries name).or (screens.get? name) := by
  induction entries generalizing screens with
  | nil => rfl
  | cons entry entries ih =>
    rw [List.foldl_cons, ih, get?_addEntry _ _ h, lastWidth?_cons, Option.or_assoc]

theorem get?_foldl_addEntry_of_isReserved (entries : List (String × Option String))
    (screens : Screens) {name : String} (h : IsReserved name) :
    (entries.foldl addEntry screens).get? name = screens.get? name := by
  induction entries generalizing screens with
  | nil => rfl
  | cons entry entries ih =>
    rw [List.foldl_cons, ih, get?_addEntry_of_isReserved _ _ h]

/-- **The default of a side** is the last text of its reserved name. -/
theorem default?_ofEntries (entries : List (String × Option String)) (side : Side) :
    (ofEntries entries).default? side = lastWidth? entries (reservedName side) := by
  have hempty : empty.default? side = none := by cases side <;> rfl
  unfold ofEntries
  rw [default?_foldl_addEntry, hempty, Option.or_none]

/-- **The screens of the table** are those that the entries name. -/
theorem get?_ofEntries_eq_some_iff {entries : List (String × Option String)}
    {name width : String} :
    (ofEntries entries).get? name = some width ↔ Names entries name width := by
  unfold ofEntries Names
  -- a reserved name may have a text in the list, which is then a default and no width
  by_cases h : IsReserved name
  · rw [get?_foldl_addEntry_of_isReserved _ _ h]
    exact ⟨fun hget => (nomatch hget), fun hnames => absurd h hnames.1⟩
  · rw [get?_foldl_addEntry _ _ h]
    show (lastWidth? entries name).or none = some width ↔ _
    rw [Option.or_none]
    exact ⟨fun hlast => ⟨h, hlast⟩, fun hnames => hnames.2⟩

theorem get?_ofEntries_eq_none_iff {entries : List (String × Option String)} {name : String} :
    (ofEntries entries).get? name = none ↔ ¬ IsName entries name := by
  rw [Option.eq_none_iff_forall_ne_some, IsName, not_exists]
  exact forall_congr' fun width => not_congr get?_ofEntries_eq_some_iff

theorem contains_ofEntries_iff {entries : List (String × Option String)} {name : String} :
    (ofEntries entries).contains name = true ↔ IsName entries name := by
  have hget : (ofEntries entries).contains name = ((ofEntries entries).get? name).isSome := rfl
  rw [hget, Option.isSome_iff_exists]
  exact exists_congr fun width => get?_ofEntries_eq_some_iff

/-- A name has one width. -/
theorem Names.unique {entries : List (String × Option String)} {name a b : String}
    (ha : Names entries name a) (hb : Names entries name b) : a = b :=
  Option.some.inj (ha.2.symm.trans hb.2)

end FluidClamp.Screens
