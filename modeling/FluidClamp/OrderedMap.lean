/-
  FluidClamp.OrderedMap
  ─────────────────────
  **MAPS THAT REMEMBER THE ORDER OF INSERTION.**

  The entries stand in the order in which their keys were first inserted; a key
  that is inserted again keeps its place and takes the new value.  No key occurs
  twice, which is part of the type.  The view of a map is `get?`:

      (m.insert k v).get? j  =  if j = k then some v else m.get? j
-/

namespace FluidClamp

/-! ## §1. Insertion into a list of entries. -/

namespace Entries

variable {κ ν : Type} [DecidableEq κ]

/-- Replace the value of a key in place, or add the entry at the end. -/
def insert (key : κ) (value : ν) : List (κ × ν) → List (κ × ν)
  | [] => [(key, value)]
  | entry :: rest =>
      if entry.1 = key then (key, value) :: rest else entry :: insert key value rest

/-- The value of a key. -/
def lookup (key : κ) : List (κ × ν) → Option ν
  | [] => none
  | entry :: rest => if entry.1 = key then some entry.2 else lookup key rest

/-- Take away the entry of a key. -/
def erase (key : κ) : List (κ × ν) → List (κ × ν)
  | [] => []
  | entry :: rest => if entry.1 = key then erase key rest else entry :: erase key rest

theorem mem_keys_insert (key other : κ) (value : ν) (entries : List (κ × ν)) :
    other ∈ (insert key value entries).map Prod.fst ↔
      other = key ∨ other ∈ entries.map Prod.fst := by
  induction entries with
  | nil => simp [insert]
  | cons entry rest ih =>
    by_cases h : entry.1 = key
    · simp only [insert, h, if_true, List.map_cons, List.mem_cons]
      constructor
      · exact fun o => o.elim Or.inl fun o => Or.inr (Or.inr o)
      · exact fun o => o.elim Or.inl id
    · simp only [insert, h, if_false, List.map_cons, List.mem_cons, ih]
      constructor
      · rintro (o | o | o)
        · exact Or.inr (Or.inl o)
        · exact Or.inl o
        · exact Or.inr (Or.inr o)
      · rintro (o | o | o)
        · exact Or.inr (Or.inl o)
        · exact Or.inl o
        · exact Or.inr (Or.inr o)

theorem nodup_keys_insert (key : κ) (value : ν) {entries : List (κ × ν)}
    (h : (entries.map Prod.fst).Nodup) :
    ((insert key value entries).map Prod.fst).Nodup := by
  induction entries with
  | nil => simp [insert]
  | cons entry rest ih =>
    simp only [List.map_cons, List.nodup_cons] at h
    by_cases hk : entry.1 = key
    · simp only [insert, hk, if_true, List.map_cons, List.nodup_cons]
      exact hk ▸ h
    · simp only [insert, hk, if_false, List.map_cons, List.nodup_cons]
      refine ⟨?_, ih h.2⟩
      rw [mem_keys_insert]
      exact fun o => o.elim hk h.1

theorem lookup_insert (key other : κ) (value : ν) (entries : List (κ × ν)) :
    lookup other (insert key value entries) =
      if other = key then some value else lookup other entries := by
  induction entries with
  | nil => by_cases h : key = other <;> simp [insert, lookup, h, eq_comm]
  | cons entry rest ih =>
    by_cases hk : entry.1 = key
    · by_cases h : other = key
      · simp [insert, lookup, hk, h]
      · simp [insert, lookup, hk, h, Ne.symm h]
    · simp only [insert, hk, if_false, lookup, ih]
      by_cases h : other = key
      · subst h; simp [hk]
      · simp [h]

/-- A key that has the value already changes nothing. -/
theorem insert_of_lookup {key : κ} {value : ν} {entries : List (κ × ν)}
    (h : lookup key entries = some value) : insert key value entries = entries := by
  induction entries with
  | nil => exact nomatch h
  | cons entry rest ih =>
    by_cases hk : entry.1 = key
    · simp only [lookup, hk, if_true, Option.some.injEq] at h
      simp only [insert, hk, if_true]
      rw [← hk, ← h]
    · simp only [lookup, hk, if_false] at h
      simp only [insert, hk, if_false, ih h]

/-- Where no key occurs twice, looking a key up finds its entry. -/
theorem lookup_eq_some_iff {key : κ} {value : ν} {entries : List (κ × ν)}
    (h : (entries.map Prod.fst).Nodup) :
    lookup key entries = some value ↔ (key, value) ∈ entries := by
  induction entries with
  | nil => simp [lookup]
  | cons entry rest ih =>
    simp only [List.map_cons, List.nodup_cons] at h
    by_cases hk : entry.1 = key
    · have hrest : (key, value) ∉ rest := fun hm =>
        h.1 (hk ▸ List.mem_map_of_mem hm)
      simp only [lookup, hk, if_true, Option.some.injEq, List.mem_cons, hrest, or_false]
      exact ⟨fun hv => Prod.ext hk.symm hv.symm, fun he => by rw [← he]⟩
    · have hne : (key, value) ≠ entry := fun he => hk (by rw [← he])
      simp only [lookup, hk, if_false, List.mem_cons, hne, false_or]
      exact ih h.2

theorem erase_sublist (key : κ) (entries : List (κ × ν)) :
    (erase key entries).Sublist entries := by
  induction entries with
  | nil => exact .slnil
  | cons entry rest ih =>
    simp only [erase]
    split
    · exact .cons _ ih
    · exact .cons_cons _ ih

theorem nodup_keys_erase (key : κ) {entries : List (κ × ν)}
    (h : (entries.map Prod.fst).Nodup) : ((erase key entries).map Prod.fst).Nodup :=
  h.sublist ((erase_sublist key entries).map Prod.fst)

theorem lookup_erase (key other : κ) (entries : List (κ × ν)) :
    lookup other (erase key entries) = if other = key then none else lookup other entries := by
  induction entries with
  | nil => simp [erase, lookup]
  | cons entry rest ih =>
    by_cases hk : entry.1 = key
    · by_cases h : other = key
      · simp only [erase, hk, if_true, ih]; simp only [h, if_true]
      · simp [erase, lookup, hk, ih, h, Ne.symm h]
    · simp only [erase, hk, if_false, lookup, ih]
      by_cases h : other = key
      · subst h; simp [hk]
      · simp [h]

end Entries

/-! ## §2. The type. -/

/-- A map that remembers the order of insertion. -/
structure OrderedMap (κ ν : Type) where
  entries : List (κ × ν)
  nodup_keys : (entries.map Prod.fst).Nodup
  deriving DecidableEq

namespace OrderedMap

variable {κ ν : Type} [DecidableEq κ]

/-- The map without entries. -/
def empty : OrderedMap κ ν := ⟨[], by simp⟩

instance : Inhabited (OrderedMap κ ν) := ⟨empty⟩

/-- Give a key a value; a key that is already there keeps its place. -/
def insert (map : OrderedMap κ ν) (key : κ) (value : ν) : OrderedMap κ ν :=
  ⟨Entries.insert key value map.entries, Entries.nodup_keys_insert key value map.nodup_keys⟩

/-- Take a key away. -/
def erase (map : OrderedMap κ ν) (key : κ) : OrderedMap κ ν :=
  ⟨Entries.erase key map.entries, Entries.nodup_keys_erase key map.nodup_keys⟩

/-- The value of a key. -/
def get? (map : OrderedMap κ ν) (key : κ) : Option ν := Entries.lookup key map.entries

/-- Whether the key has a value. -/
def contains (map : OrderedMap κ ν) (key : κ) : Bool := (map.get? key).isSome

/-- The number of keys. -/
def size (map : OrderedMap κ ν) : Nat := map.entries.length

/-- The map that inserts the entries one after the other. -/
def ofList (entries : List (κ × ν)) : OrderedMap κ ν :=
  entries.foldl (fun map entry => map.insert entry.1 entry.2) empty

/-- The entries are what the view shows. -/
theorem get?_eq_some_iff {map : OrderedMap κ ν} {key : κ} {value : ν} :
    map.get? key = some value ↔ (key, value) ∈ map.entries :=
  Entries.lookup_eq_some_iff map.nodup_keys

@[simp] theorem get?_empty (key : κ) : (empty : OrderedMap κ ν).get? key = none := rfl

@[simp] theorem get?_insert (map : OrderedMap κ ν) (key other : κ) (value : ν) :
    (map.insert key value).get? other = if other = key then some value else map.get? other :=
  Entries.lookup_insert key other value map.entries

theorem insert_of_get? {map : OrderedMap κ ν} {key : κ} {value : ν}
    (h : map.get? key = some value) : map.insert key value = map := by
  cases map
  simp only [insert, Entries.insert_of_lookup h]

@[simp] theorem get?_erase (map : OrderedMap κ ν) (key other : κ) :
    (map.erase key).get? other = if other = key then none else map.get? other :=
  Entries.lookup_erase key other map.entries

end OrderedMap

end FluidClamp
