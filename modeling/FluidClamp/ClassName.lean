/-
  FluidClamp.ClassName
  ────────────────────
  **THE CLASS NAMES OF UTILITIES.**

  A class of a utility is written in one of two ways,

      fluid-<utility>-[<shorthand>]      an underscore stands for a blank
      fluid-<utility>-<name>             the name of a configured shorthand

  and a class that ends in a bracket is always of the first kind.  In the second,
  the utility is the one with the longest name that leaves a name over.
-/
import FluidClamp.Text.Cut
import FluidClamp.Utility.Table

namespace FluidClamp

/-! ## §1. Classes. -/

/-- Where a class gets its shorthand from. -/
inductive ClassValue where
  /-- The shorthand itself. -/
  | arbitrary (shorthand : String)
  /-- The name of a configured one. -/
  | named (name : String)
  deriving Repr, DecidableEq

/-- A class name taken apart. -/
structure ClassName where
  text : String
  utility : Utility
  value : ClassValue
  deriving Repr, DecidableEq

namespace ClassName

/-- What every class of a utility begins with. -/
def start : String := "fluid-"

/-! ## §2. Taking a class name apart. -/

/-- Underscores read as blanks. -/
def unfold (raw : List Char) : String :=
  String.ofList (raw.map fun c => if c = '_' then ' ' else c)

/-- The utility and the shorthand of `<utility>-[<shorthand>`. -/
def arbitrary? (body : List Char) : Option (Utility × ClassValue) :=
  match cutAt? ['-', '['] body with
  | none => none
  | some (name, raw) =>
      (Utility.find? (String.ofList name)).map fun utility => (utility, .arbitrary (unfold raw))

/-- The name that is left of `<utility>-<name>`; it is never empty. -/
def nameAfter? (utility : Utility) (body : List Char) : Option (List Char) :=
  match after? (utility.name.toList ++ ['-']) body with
  | some (c :: rest) => some (c :: rest)
  | _ => none

/-- The utility with the longest name that leaves a name over, and that name. -/
def named? (body : List Char) : Option (Utility × ClassValue) :=
  longest Utility.table
where
  longest : List Utility → Option (Utility × ClassValue)
    | [] => none
    | utility :: rest =>
        match nameAfter? utility body, longest rest with
        | none, best => best
        | some name, none => some (utility, .named (String.ofList name))
        | some name, some best =>
            if best.1.name.length < utility.name.length then
              some (utility, .named (String.ofList name))
            else some best

/-- **The class of a text**, if it is one of a utility. -/
def parse? (text : String) : Option ClassName :=
  match after? start.toList text.toList with
  | none => none
  | some body =>
      (if body.getLast? = some ']' then arbitrary? body.dropLast else named? body).map
        fun (utility, value) => ⟨text, utility, value⟩

/-- The place of the class's utility in the table of utilities; a text that is
not a class of any comes after all of them. -/
def place (text : String) : Nat :=
  ((parse? text).bind fun className => Utility.place? className.utility.name).getD
    Utility.table.length

end ClassName

end FluidClamp
