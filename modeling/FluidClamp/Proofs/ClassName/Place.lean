/-
  FluidClamp.Proofs.ClassName.Place
  ─────────────────────────────────
  **THE UTILITY OF A CLASS AND ITS PLACE.**

  Whichever way a class is written, its utility is one of the table.  Names in the
  table differ, so looking for the name finds the one place where the utility
  stands, and a class of a utility never takes the place behind the table.
-/
import Mathlib.Data.List.Nodup
import FluidClamp.ClassName

namespace FluidClamp

/-! ## §1. Looking up in the table. -/

namespace Utility

/-- A name determines the place where it stands. -/
theorem eq_of_name_eq {i j : Nat} {u v : Utility} (hi : table[i]? = some u)
    (hj : table[j]? = some v) (h : u.name = v.name) : i = j := by
  have hlen : i < (table.map name).length := by
    rw [List.length_map]
    exact (List.getElem?_eq_some_iff.1 hi).1
  refine (List.getElem?_inj hlen nodup_names).1 ?_
  rw [List.getElem?_map, List.getElem?_map, hi, hj, Option.map_some, Option.map_some, h]

/-- The look-up of a name finds the place of its utility. -/
theorem place?_eq_some {i : Nat} {u : Utility} (h : table[i]? = some u) :
    place? u.name = some i := by
  obtain ⟨hi, hu⟩ := List.getElem?_eq_some_iff.1 h
  refine List.findIdx?_eq_some_iff_getElem.2 ⟨hi, by simp [hu], ?_⟩
  intro j hji
  have hj : j < table.length := by omega
  simp only [decide_eq_true_eq]
  intro hname
  have hij := eq_of_name_eq (List.getElem?_eq_getElem hj) h hname
  omega

/-- And no other one. -/
theorem place?_eq_some_iff {i : Nat} {u : Utility} (hmem : u ∈ table) :
    place? u.name = some i ↔ table[i]? = some u := by
  obtain ⟨j, hj⟩ := List.mem_iff_getElem?.1 hmem
  constructor
  · intro h
    have hij := Option.some.inj ((place?_eq_some hj).symm.trans h)
    rw [← hij]
    exact hj
  · exact place?_eq_some

end Utility

/-! ## §2. The utility of a class. -/

namespace ClassName

theorem mem_of_longest {body : List Char} {found : Utility × ClassValue} :
    ∀ utilities : List Utility,
      named?.longest body utilities = some found → found.1 ∈ utilities := by
  intro utilities
  induction utilities with
  | nil => intro h; simp [named?.longest] at h
  | cons utility rest ih =>
      intro h
      unfold named?.longest at h
      split at h
      · exact List.mem_cons_of_mem _ (ih h)
      · cases h
        exact List.mem_cons_self
      · next best hbest =>
        split at h
        · cases h
          exact List.mem_cons_self
        · cases h
          exact List.mem_cons_of_mem _ (ih hbest)

/-- The utility of a class is one of the table. -/
theorem utility_mem_table {text : String} {className : ClassName}
    (h : parse? text = some className) : className.utility ∈ Utility.table := by
  unfold parse? at h
  split at h
  · simp at h
  · next body _ =>
    obtain ⟨found, hfound, rfl⟩ := Option.map_eq_some_iff.1 h
    split at hfound
    · unfold arbitrary? at hfound
      split at hfound
      · simp at hfound
      · obtain ⟨utility, hutility, rfl⟩ := Option.map_eq_some_iff.1 hfound
        exact List.mem_of_find?_eq_some hutility
    · exact mem_of_longest Utility.table hfound

/-! ## §3. The place of a class. -/

/-- The class takes the place at which its utility stands in the table. -/
def HasPlace (text : String) (place : Nat) : Prop :=
  ∃ className, parse? text = some className ∧ Utility.table[place]? = some className.utility

/-- A class has at most one place, and it is the one that is computed. -/
theorem HasPlace.place_eq {text : String} {place : Nat} (h : HasPlace text place) :
    ClassName.place text = place := by
  obtain ⟨className, hparse, hplace⟩ := h
  unfold ClassName.place
  rw [hparse, Option.bind_some, Utility.place?_eq_some hplace, Option.getD_some]

/-- A class of a utility has a place. -/
theorem hasPlace_place {text : String} {className : ClassName}
    (h : parse? text = some className) : HasPlace text (ClassName.place text) := by
  obtain ⟨i, hi⟩ := List.mem_iff_getElem?.1 (utility_mem_table h)
  have hplace : HasPlace text i := ⟨className, h, hi⟩
  rw [hplace.place_eq]
  exact hplace

end ClassName

end FluidClamp
