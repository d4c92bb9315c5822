/-
  FluidClamp.Proofs.ClassName.Splits
  ──────────────────────────────────
  **THE READINGS OF A CLASS.**

  Names of utilities contain dashes, so a class such as `fluid-gap-x-card` can be
  read as the name `x-card` of `gap` and as the name `card` of `gap-x`.  `Splits`
  lists all readings; two of them with utilities of one length are the same, so
  there is at most one longest, and that is the one that is looked up:

      parse? text = some ⟨text, u, .named n⟩   ↔   SplitsLongest text u n

  A name that is configured under a shorter reading is not reached; a name without
  a dash always is, for then there is no longer reading.  A class that ends in a
  bracket holds its shorthand itself and is read in no other way.
-/
import FluidClamp.Proofs.ClassName.Place
import FluidClamp.RuleSet

namespace FluidClamp

/-! ## §1. Readings of a class. -/

/-- A name determines its utility. -/
theorem Utility.eq_of_name {u v : Utility} (hu : u ∈ table) (hv : v ∈ table)
    (h : u.name = v.name) : u = v := by
  obtain ⟨i, hi⟩ := List.mem_iff_getElem?.1 hu
  obtain ⟨j, hj⟩ := List.mem_iff_getElem?.1 hv
  have hij := eq_of_name_eq hi hj h
  rw [hij, hj] at hi
  exact (Option.some.inj hi).symm

namespace ClassName

/-- The text is a class of the utility with the name. -/
structure Splits (text : String) (utility : Utility) (name : String) : Prop where
  mem : utility ∈ Utility.table
  name_ne : name ≠ ""
  text_eq : text = start ++ utility.name ++ "-" ++ name

/-- And no utility with a longer name has it as a class with a name. -/
structure SplitsLongest (text : String) (utility : Utility) (name : String) : Prop
    extends Splits text utility name where
  longest : ∀ other otherName,
    Splits text other otherName → other.name.length ≤ utility.name.length

theorem append_dash_append (left right : String) :
    (left ++ "-" ++ right).toList = left.toList ++ '-' :: right.toList := by
  have hdash : "-".toList = ['-'] := rfl
  rw [String.toList_append, String.toList_append, hdash, List.append_assoc,
    List.singleton_append]

theorem text_eq_iff {text name : String} {utility : Utility} :
    text = start ++ utility.name ++ "-" ++ name ↔
      text.toList = start.toList ++ (utility.name.toList ++ '-' :: name.toList) := by
  rw [← String.toList_inj, append_dash_append, String.toList_append, List.append_assoc]

/-- What two readings have in common after the start of the class. -/
theorem Splits.body_eq {text : String} {utility : Utility} {name : String}
    (h : Splits text utility name) :
    text.toList = start.toList ++ (utility.name.toList ++ '-' :: name.toList) :=
  text_eq_iff.1 h.text_eq

/-- Readings with utilities of one length are the same. -/
theorem Splits.unique {text : String} {u v : Utility} {n m : String}
    (hu : Splits text u n) (hv : Splits text v m) (hlen : u.name.length = v.name.length) :
    u = v ∧ n = m := by
  have hbody : u.name.toList ++ '-' :: n.toList = v.name.toList ++ '-' :: m.toList :=
    List.append_cancel_left (hu.body_eq.symm.trans hv.body_eq)
  rw [← String.length_toList, ← String.length_toList] at hlen
  obtain ⟨hutility, hname⟩ := List.append_inj hbody hlen
  refine ⟨Utility.eq_of_name hu.mem hv.mem (String.toList_inj.1 hutility), ?_⟩
  exact String.toList_inj.1 (List.cons.inj hname).2

/-- There is at most one longest reading. -/
theorem SplitsLongest.unique {text : String} {u v : Utility} {n m : String}
    (hu : SplitsLongest text u n) (hv : SplitsLongest text v m) : u = v ∧ n = m := by
  have huv := hu.longest v m hv.toSplits
  have hvu := hv.longest u n hu.toSplits
  exact hu.toSplits.unique hv.toSplits (by omega)

/-- Another utility takes the beginning of the name to itself. -/
def Shadowed (utility : Utility) (name : String) : Prop :=
  ∃ other ∈ Utility.table, ∃ more rest, rest ≠ "" ∧
    other.name = utility.name ++ "-" ++ more ∧ name = more ++ "-" ++ rest

/-- A longer reading takes the beginning of the name to its utility. -/
theorem Splits.shadowed {text : String} {utility other : Utility} {name rest : String}
    (h : Splits text utility name) (hother : Splits text other rest)
    (hlen : utility.name.length < other.name.length) : Shadowed utility name := by
  have hbody : utility.name.toList ++ '-' :: name.toList =
      other.name.toList ++ '-' :: rest.toList :=
    List.append_cancel_left (h.body_eq.symm.trans hother.body_eq)
  rw [← String.length_toList, ← String.length_toList] at hlen
  -- both begin the body, so the longer utility begins with the shorter one and a dash
  rcases List.append_eq_append_iff.1 hbody with ⟨beyond, hlonger, hname⟩ | ⟨beyond, hlonger, -⟩
  · cases beyond with
    | nil =>
      rw [hlonger, List.append_nil] at hlen
      omega
    | cons c more =>
      obtain ⟨rfl, hmore⟩ := List.cons.inj hname
      refine ⟨other, hother.mem, String.ofList more, rest, hother.name_ne, ?_, ?_⟩
      · apply String.toList_inj.1
        rw [append_dash_append, String.toList_ofList, hlonger]
      · apply String.toList_inj.1
        rw [append_dash_append, String.toList_ofList]
        exact hmore
  · rw [hlonger, List.length_append] at hlen
    omega

/-- **The longest reading** is the one whose name no other utility takes from. -/
theorem splitsLongest_iff {text : String} {utility : Utility} {name : String} :
    SplitsLongest text utility name ↔ Splits text utility name ∧ ¬ Shadowed utility name := by
  constructor
  · intro h
    refine ⟨h.toSplits, ?_⟩
    rintro ⟨other, hmem, more, rest, hrest, hother, hname⟩
    -- the utility that takes from the name gives a longer reading
    have hsplit : Splits text other rest := by
      refine ⟨hmem, hrest, ?_⟩
      rw [h.text_eq, hother, hname]
      simp only [String.append_assoc]
    have hlong := h.longest other rest hsplit
    rw [hother, String.length_append, String.length_append] at hlong
    have hdash : "-".length = 1 := rfl
    omega
  · rintro ⟨hsplit, hshadow⟩
    refine ⟨hsplit, ?_⟩
    intro other otherName hother
    rcases Nat.lt_or_ge utility.name.length other.name.length with hlt | hge
    · exact absurd (hsplit.shadowed hother hlt) hshadow
    · exact hge

/-- A name without a dash has nothing that could be taken. -/
theorem not_shadowed_of_not_mem {utility : Utility} {name : String} (h : '-' ∉ name.toList) :
    ¬ Shadowed utility name := by
  rintro ⟨other, -, more, rest, -, -, hname⟩
  apply h
  rw [hname, append_dash_append]
  exact List.mem_append_right _ List.mem_cons_self

/-! ## §2. The search through the table. -/

theorem nameAfter?_eq_some_iff {utility : Utility} {body name : List Char} :
    nameAfter? utility body = some name ↔
      name ≠ [] ∧ body = utility.name.toList ++ '-' :: name := by
  have hafter : ∀ rest, after? (utility.name.toList ++ ['-']) body = some rest ↔
      body = utility.name.toList ++ '-' :: rest := by
    intro rest
    rw [after?_eq_some_iff, List.append_assoc, List.singleton_append]
  unfold nameAfter?
  split
  · next c rest hrest =>
    rw [hafter] at hrest
    constructor
    · intro h
      obtain rfl := Option.some.inj h
      exact ⟨List.cons_ne_nil c rest, hrest⟩
    · rintro ⟨-, hbody⟩
      have hname := List.append_cancel_left (hrest.symm.trans hbody)
      rw [(List.cons.inj hname).2]
  · next hnone =>
    constructor
    · intro h
      exact nomatch h
    · rintro ⟨hne, hbody⟩
      cases name with
      | nil => exact absurd rfl hne
      | cons c rest => exact absurd ((hafter (c :: rest)).2 hbody) (hnone c rest)

/-- The best reading among some utilities, if there is one. -/
def IsBest (body : List Char) (utilities : List Utility) :
    Option (Utility × ClassValue) → Prop
  | none => ∀ utility ∈ utilities, nameAfter? utility body = none
  | some (utility, value) =>
      utility ∈ utilities ∧
        (∃ name, nameAfter? utility body = some name ∧ value = .named (String.ofList name)) ∧
        ∀ other ∈ utilities, nameAfter? other body ≠ none →
          other.name.length ≤ utility.name.length

/-- **The search finds the best reading**, whichever utilities it goes through. -/
theorem isBest_longest (body : List Char) (utilities : List Utility) :
    IsBest body utilities (named?.longest body utilities) := by
  induction utilities with
  | nil =>
    intro utility hmem
    exact nomatch hmem
  | cons utility rest ih =>
    unfold named?.longest
    split
    · -- the first is no reading, so the best of the others stays the best
      next hnone =>
      cases hbest : named?.longest body rest with
      | none =>
        rw [hbest] at ih
        exact List.forall_mem_cons.2 ⟨hnone, ih⟩
      | some best =>
        rw [hbest] at ih
        obtain ⟨hmem, hname, hle⟩ := ih
        refine ⟨List.mem_cons_of_mem _ hmem, hname, List.forall_mem_cons.2 ⟨?_, hle⟩⟩
        intro hsome
        exact absurd hnone hsome
    · -- it is the only reading
      next name hname hnone =>
      rw [hnone] at ih
      refine ⟨List.mem_cons_self, ⟨name, hname, rfl⟩, List.forall_mem_cons.2 ⟨?_, ?_⟩⟩
      · intro _
        exact Nat.le_refl _
      · intro other hother hsome
        exact absurd (ih other hother) hsome
    · -- it competes with the best of the others
      next name best hname hbest =>
      rw [hbest] at ih
      obtain ⟨hmem, hbestName, hle⟩ := ih
      split
      · next hlonger =>
        refine ⟨List.mem_cons_self, ⟨name, hname, rfl⟩, List.forall_mem_cons.2 ⟨?_, ?_⟩⟩
        · intro _
          exact Nat.le_refl _
        · intro other hother hsome
          have hother := hle other hother hsome
          omega
      · next hshorter =>
        refine ⟨List.mem_cons_of_mem _ hmem, hbestName, List.forall_mem_cons.2 ⟨?_, hle⟩⟩
        intro _
        omega

/-! ## §3. The class of a text that does not end in a bracket. -/

theorem parse?_of_getLast?_ne {body : List Char} {text : String}
    (hbody : text.toList = start.toList ++ body) (hlast : text.toList.getLast? ≠ some ']') :
    parse? text = (named? body).map fun found => ⟨text, found.1, found.2⟩ := by
  have hafter : after? start.toList text.toList = some body := after?_eq_some_iff.2 hbody
  have hbracket : body.getLast? ≠ some ']' := by
    intro hclose
    apply hlast
    rw [hbody, List.getLast?_append, hclose]
    rfl
  unfold parse?
  rw [hafter]
  simp only [if_neg hbracket]

theorem splits_iff {text name : String} {utility : Utility} {body : List Char}
    (hbody : text.toList = start.toList ++ body) (hmem : utility ∈ Utility.table) :
    Splits text utility name ↔ nameAfter? utility body = some name.toList := by
  have hempty : name ≠ "" ↔ name.toList ≠ [] := not_congr String.toList_eq_nil_iff.symm
  rw [nameAfter?_eq_some_iff]
  constructor
  · intro h
    exact ⟨hempty.1 h.name_ne, List.append_cancel_left (hbody.symm.trans h.body_eq)⟩
  · rintro ⟨hne, hname⟩
    exact ⟨hmem, hempty.2 hne, text_eq_iff.2 (hbody.trans (congrArg _ hname))⟩

/-- **A text is the class of a name exactly by its longest reading.** -/
theorem parse?_eq_some_iff_splitsLongest {text : String}
    (hlast : text.toList.getLast? ≠ some ']') {className : ClassName} :
    parse? text = some className ↔
      ∃ name, className.text = text ∧ className.value = .named name ∧
        SplitsLongest text className.utility name := by
  constructor
  · intro h
    cases hafter : after? start.toList text.toList with
    | none =>
      unfold parse? at h
      rw [hafter] at h
      exact nomatch h
    | some body =>
      have hbody := after?_eq_some_iff.1 hafter
      rw [parse?_of_getLast?_ne hbody hlast] at h
      obtain ⟨found, hfound, rfl⟩ := Option.map_eq_some_iff.1 h
      have hbest := isBest_longest body Utility.table
      change IsBest body Utility.table (named? body) at hbest
      rw [hfound] at hbest
      obtain ⟨hmem, ⟨name, hname, hvalue⟩, hle⟩ := hbest
      have hsplit : Splits text found.1 (String.ofList name) := by
        rw [splits_iff hbody hmem, String.toList_ofList]
        exact hname
      refine ⟨String.ofList name, rfl, hvalue, hsplit, ?_⟩
      intro other otherName hother
      apply hle other hother.mem
      rw [(splits_iff hbody hother.mem).1 hother]
      exact Option.some_ne_none _
  · rintro ⟨name, htext, hvalue, hsplit⟩
    obtain ⟨body, hbody⟩ : ∃ body, text.toList = start.toList ++ body := ⟨_, hsplit.body_eq⟩
    have hname := (splits_iff hbody hsplit.mem).1 hsplit.toSplits
    have hbest := isBest_longest body Utility.table
    change IsBest body Utility.table (named? body) at hbest
    rw [parse?_of_getLast?_ne hbody hlast]
    cases hfound : named? body with
    | none =>
      rw [hfound] at hbest
      exact absurd (hname.symm.trans (hbest _ hsplit.mem)) (Option.some_ne_none _)
    | some found =>
      rw [hfound] at hbest
      obtain ⟨hmem, ⟨other, hother, hfoundValue⟩, hle⟩ := hbest
      -- the reading that was found is as long as the longest, so it is that one
      have hsplitFound : Splits text found.1 (String.ofList other) := by
        rw [splits_iff hbody hmem, String.toList_ofList]
        exact hother
      have hlong := hsplit.longest found.1 _ hsplitFound
      have hshort := hle className.utility hsplit.mem (by rw [hname]; exact Option.some_ne_none _)
      obtain ⟨hutility, hotherName⟩ := hsplitFound.unique hsplit.toSplits (by omega)
      obtain ⟨foundUtility, foundValue⟩ := found
      obtain ⟨classText, classUtility, classValue⟩ := className
      simp only at htext hvalue hutility hotherName hfoundValue
      subst htext hvalue hutility hotherName hfoundValue
      rfl

end ClassName

/-! ## §4. The class of a text that ends in a bracket. -/

namespace ClassName

/-- Such a class is never read as a name: what stands between the brackets is its
shorthand. -/
theorem exists_raw_of_parse? {text : String} (hlast : text.toList.getLast? = some ']')
    {className : ClassName} (h : parse? text = some className) :
    ∃ raw, className.value = .arbitrary (unfold raw) ∧
      text.toList =
        start.toList ++ (className.utility.name.toList ++ '-' :: '[' :: (raw ++ [']'])) := by
  cases hafter : after? start.toList text.toList with
  | none =>
    unfold parse? at h
    rw [hafter] at h
    exact nomatch h
  | some body =>
    have hbody := after?_eq_some_iff.1 hafter
    have hbracket : body.getLast? = some ']' := by
      cases body with
      | nil =>
        rw [hbody] at hlast
        exact absurd hlast (by decide)
      | cons c body =>
        rw [hbody, List.getLast?_append, List.getLast?_cons, Option.some_or] at hlast
        rw [List.getLast?_cons]
        exact hlast
    unfold parse? at h
    rw [hafter] at h
    simp only [if_pos hbracket] at h
    obtain ⟨found, hfound, rfl⟩ := Option.map_eq_some_iff.1 h
    unfold arbitrary? at hfound
    split at hfound
    · exact nomatch hfound
    · next name raw hcut =>
      obtain ⟨utility, hutility, rfl⟩ := Option.map_eq_some_iff.1 hfound
      have hname : utility.name = String.ofList name := by
        simpa using List.find?_some hutility
      refine ⟨raw, rfl, ?_⟩
      have hdrop := List.dropLast_append_getLast? _ hbracket
      rw [hbody, ← hdrop, eq_append_of_cutAt? hcut, hname, String.toList_ofList]
      simp only [List.append_assoc, List.cons_append, List.nil_append]

end ClassName

/-! ## §5. Configured names. -/

/-- The utility of gaps in both directions; there are two more for one of them. -/
def Utility.gap : Utility := sizes "gap" "gap" ["gap"]

theorem Utility.gap_mem_table : gap ∈ table := by decide +kernel

namespace Config

open ClassName

/-- The shorthand is configured for the utility under the name. -/
def Names (config : Config) (utility : Utility) (name shorthand : String) : Prop :=
  ∃ key, utility.themeKey = some key ∧ config.namedShorthand? key name = some shorthand

/-- What a class of the utility with the shorthand comes to: a rule, or the
failure of the shorthand. -/
def ruleOf (config : Config) (utility : Utility) (text shorthand : String) :
    Except Failure (Option Css.Rule) :=
  (config.evaluate shorthand).map fun css => some (utility.rule text css)

theorem ruleOf_ne_none (config : Config) (utility : Utility) (text shorthand : String) :
    config.ruleOf utility text shorthand ≠ .ok none := by
  unfold ruleOf
  cases config.evaluate shorthand with
  | error failure => exact fun h => nomatch h
  | ok css => exact fun h => nomatch h

theorem resolve_of_splitsLongest (config : Config) {text : String}
    (hlast : text.toList.getLast? ≠ some ']') {utility : Utility} {name : String}
    (hsplit : SplitsLongest text utility name) :
    config.resolve text =
      match utility.themeKey.bind fun key => config.namedShorthand? key name with
      | none => .ok none
      | some shorthand => config.ruleOf utility text shorthand := by
  have hparse : parse? text = some ⟨text, utility, .named name⟩ :=
    (parse?_eq_some_iff_splitsLongest hlast).2 ⟨name, rfl, rfl, hsplit⟩
  unfold resolve shorthandOf? ruleOf
  rw [hparse]
  simp only
  cases utility.themeKey.bind fun key => config.namedShorthand? key name with
  | none => rfl
  | some shorthand =>
    simp only
    cases config.evaluate shorthand <;> rfl

theorem resolve_of_names {config : Config} {text : String}
    (hlast : text.toList.getLast? ≠ some ']') {utility : Utility} {name shorthand : String}
    (hsplit : SplitsLongest text utility name) (hnames : config.Names utility name shorthand) :
    config.resolve text = config.ruleOf utility text shorthand := by
  obtain ⟨key, hkey, hshorthand⟩ := hnames
  rw [resolve_of_splitsLongest config hlast hsplit, hkey, Option.bind_some, hshorthand]

/-- What has a rule, or fails, is a configured name in its longest reading. -/
theorem exists_names_of_resolve_ne {config : Config} {text : String}
    (hlast : text.toList.getLast? ≠ some ']') (hresolve : config.resolve text ≠ .ok none) :
    ∃ utility name shorthand,
      SplitsLongest text utility name ∧ config.Names utility name shorthand := by
  cases hparse : parse? text with
  | none =>
    refine absurd ?_ hresolve
    unfold resolve
    rw [hparse]
  | some className =>
    obtain ⟨name, -, -, hsplit⟩ := (parse?_eq_some_iff_splitsLongest hlast).1 hparse
    rw [resolve_of_splitsLongest config hlast hsplit] at hresolve
    cases hshorthand : className.utility.themeKey.bind fun key =>
        config.namedShorthand? key name with
    | none =>
      rw [hshorthand] at hresolve
      exact absurd rfl hresolve
    | some shorthand =>
      obtain ⟨key, hkey, hnamed⟩ := Option.bind_eq_some_iff.1 hshorthand
      exact ⟨className.utility, name, shorthand, hsplit, key, hkey, hnamed⟩

/-- One name for all gaps. -/
def withGap (name shorthand : String) : Config :=
  { values := .ofList [("gap", .ofList [(name, .whole shorthand)])] }

theorem names_withGap (name shorthand : String) :
    (withGap name shorthand).Names .gap name shorthand := by
  refine ⟨"gap", rfl, ?_⟩
  simp [withGap, namedShorthand?, OrderedMap.ofList, NamedShorthand.text]

/-- **Configured names are reached by the longest reading of a class, and by no
other.**  A class without a bracket at its end has a rule, or fails, exactly when
the name in its longest reading is configured, and then it has the rule of that
utility and shorthand, or its failure.  Under any reading a configured name is
reached that no longer utility takes the beginning of. -/
theorem resolve_reaches_longest (config : Config) {text : String}
    (hlast : text.toList.getLast? ≠ some ']') :
    (config.resolve text ≠ .ok none ↔ ∃ utility name shorthand,
      SplitsLongest text utility name ∧ config.Names utility name shorthand) ∧
    (∀ utility name shorthand, SplitsLongest text utility name →
      config.Names utility name shorthand →
        config.resolve text = config.ruleOf utility text shorthand) ∧
    ∀ utility name shorthand, Splits text utility name → ¬ Shadowed utility name →
      config.Names utility name shorthand →
        config.resolve text = config.ruleOf utility text shorthand := by
  refine ⟨⟨exists_names_of_resolve_ne hlast, ?_⟩, ?_, ?_⟩
  · rintro ⟨utility, name, shorthand, hsplit, hnames⟩
    rw [resolve_of_names hlast hsplit hnames]
    exact ruleOf_ne_none config utility text shorthand
  · intro utility name shorthand hsplit hnames
    exact resolve_of_names hlast hsplit hnames
  · intro utility name shorthand hsplit hshadow hnames
    exact resolve_of_names hlast (splitsLongest_iff.2 ⟨hsplit, hshadow⟩) hnames

theorem resolve_reaches_longest_card :
    (withGap "card" "768px 32px,1280px 64px").resolve "fluid-gap-card" =
      .ok (some ⟨".fluid-gap-card", [⟨"gap", "clamp(32px, 6.25vw - 16px, 64px)"⟩]⟩) := by
  have hlast : "fluid-gap-card".toList.getLast? ≠ some ']' := by decide
  have hsplit : Splits "fluid-gap-card" .gap "card" := ⟨Utility.gap_mem_table, by decide, by decide⟩
  have hshadow : ¬ Shadowed .gap "card" := not_shadowed_of_not_mem (by decide)
  have hnames := names_withGap "card" "768px 32px,1280px 64px"
  rw [(resolve_reaches_longest _ hlast).2.2 .gap "card" _ hsplit hshadow hnames]
  decide +kernel

/-- The name `x-card` of `gap` is not reached: its class is read as the name
`card` of `gap-x`, which is not configured. -/
theorem resolve_shadowed :
    "fluid-gap-x-card".toList.getLast? ≠ some ']' ∧ Splits "fluid-gap-x-card" .gap "x-card" ∧
      (withGap "x-card" "768px 32px,1280px 64px").Names .gap "x-card" "768px 32px,1280px 64px" ∧
      (withGap "x-card" "768px 32px,1280px 64px").resolve "fluid-gap-x-card" = .ok none := by
  refine ⟨by decide, ⟨Utility.gap_mem_table, by decide, by decide⟩, names_withGap _ _, ?_⟩
  decide +kernel

end Config

end FluidClamp
