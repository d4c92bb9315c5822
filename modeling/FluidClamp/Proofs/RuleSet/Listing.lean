/-
  FluidClamp.Proofs.RuleSet.Listing
  ─────────────────────────────────
  **A RULE SET DEPENDS ON WHICH CLASSES WERE ADDED, AND ON NOTHING ELSE.**

  Classes are added one by one or many at once, in any order and any number of
  times.  What the set holds afterwards is said by one invariant, `Collects`,
  which every addition preserves:

      rules.get? text  =  the rule of `text`, if `text` was added

  The style sheet lists these rules strictly by place and class name.  A strictly
  ordered list is determined by its members, so the style sheet is determined by
  the set of classes that were added.
-/
import Mathlib.Data.Finset.Card
import Mathlib.Data.List.Sort
import Mathlib.Data.String.Basic
import FluidClamp.Proofs.ClassName.Place
import FluidClamp.RuleSet

namespace FluidClamp

/-! ## §1. Additions. -/

/-- One call that adds classes to a set. -/
inductive Addition where
  | one (text : String)
  | many (texts : List String)
  deriving Repr, DecidableEq

/-- The classes of a call. -/
def Addition.texts : Addition → List String
  | .one text => [text]
  | .many texts => texts

namespace RuleSet

/-- The set after a call. -/
def after (set : RuleSet) : Addition → RuleSet
  | .one text => (set.add text).1
  | .many texts => (set.addAll texts).1

/-- **The set after some calls**, one after the other, from the empty one. -/
def afterAll (config : Config) (additions : List Addition) : RuleSet :=
  additions.foldl after (.ofConfig config)

/-- The rule that the set holds for a class. -/
def rule? (set : RuleSet) (text : String) : Option Css.Rule :=
  (set.rules.get? text).map PlacedRule.rule

end RuleSet

/-! ## §2. What a class comes to. -/

namespace Config

/-- Whether a class has a rule. -/
def hasRule (config : Config) (text : String) : Bool :=
  match config.resolve text with
  | .ok (some _) => true
  | _ => false

/-- The rule of a class with its place. -/
def placed? (config : Config) (text : String) : Option PlacedRule :=
  match config.resolve text with
  | .ok (some rule) => some ⟨ClassName.place text, rule⟩
  | _ => none

theorem isSome_placed? (config : Config) (text : String) :
    (config.placed? text).isSome = config.hasRule text := by
  unfold placed? hasRule
  rcases config.resolve text with _ | _ | rule <;> rfl

/-- A class that has a rule is the class of some utility. -/
theorem exists_of_resolve {config : Config} {text : String} {rule : Css.Rule}
    (h : config.resolve text = .ok (some rule)) :
    ∃ className, ClassName.parse? text = some className := by
  unfold resolve at h
  split at h
  · simp at h
  · next className hparse => exact ⟨className, hparse⟩

/-- The place of a rule is the place of the utility of its class. -/
theorem placed?_eq_some_iff {config : Config} {text : String} {place : Nat} {rule : Css.Rule} :
    config.placed? text = some ⟨place, rule⟩ ↔
      config.resolve text = .ok (some rule) ∧ ClassName.HasPlace text place := by
  constructor
  · intro h
    unfold placed? at h
    split at h
    · next found hfound =>
      cases h
      obtain ⟨className, hparse⟩ := exists_of_resolve hfound
      exact ⟨hfound, ClassName.hasPlace_place hparse⟩
    · simp at h
  · intro hgiven
    obtain ⟨hrule, hplace⟩ := hgiven
    unfold placed?
    rw [hrule, hplace.place_eq]

end Config

/-! ## §3. One step: recording what a class came to. -/

namespace RuleSet

/-- **The invariant**: the set holds the rules of the classes that were added. -/
structure Collects (config : Config) (added : List String) (set : RuleSet) : Prop where
  config_eq : set.config = config
  get?_eq : ∀ text,
    set.rules.get? text = if text ∈ added then config.placed? text else none

theorem collects_ofConfig (config : Config) : Collects config [] (.ofConfig config) := by
  refine ⟨rfl, ?_⟩
  intro text
  rw [if_neg (List.not_mem_nil)]
  rfl

/-- The answer says whether the class has a rule. -/
theorem record_snd (set : RuleSet) (config : Config) (text : String) :
    (set.record text (config.resolve text)).2 = config.hasRule text := by
  unfold record Config.hasRule
  rcases config.resolve text with _ | _ | rule <;> rfl

/-- A class without a rule changes nothing. -/
theorem record_fst_of_not_hasRule (set : RuleSet) {config : Config} {text : String}
    (h : config.hasRule text = false) : (set.record text (config.resolve text)).1 = set := by
  unfold Config.hasRule at h
  rcases hr : config.resolve text with _ | _ | rule
  · rfl
  · rfl
  · simp [hr] at h

theorem get?_record (set : RuleSet) (config : Config) (text other : String) :
    (set.record text (config.resolve text)).1.rules.get? other =
      if other = text then (config.placed? text).or (set.rules.get? text)
      else set.rules.get? other := by
  unfold record Config.placed?
  rcases config.resolve text with _ | _ | rule
  · by_cases h : other = text <;> simp [h]
  · by_cases h : other = text <;> simp [h]
  · simp only [OrderedMap.get?_insert, Option.some_or]

/-- **The step**: recording a class adds it to those that were added. -/
theorem Collects.record {config : Config} {added : List String} {set : RuleSet}
    (h : Collects config added set) (text : String) :
    Collects config (added ++ [text]) (set.record text (config.resolve text)).1 := by
  refine ⟨by rw [config_record, h.config_eq], ?_⟩
  intro other
  rw [get?_record]
  by_cases ho : other = text
  · subst ho
    rw [if_pos rfl, if_pos (List.mem_append_right _ List.mem_cons_self), h.get?_eq]
    -- a class that was added before has the same rule again
    by_cases hm : other ∈ added
    · rw [if_pos hm, Option.or_self]
    · rw [if_neg hm, Option.or_none]
  · rw [if_neg ho, h.get?_eq]
    simp [ho]

/-! ## §4. Batches and runs. -/

theorem Collects.recordAll {config : Config} (texts : List String) :
    ∀ {added : List String} {set : RuleSet}, Collects config added set →
      Collects config (added ++ texts)
        (set.recordAll (texts.map fun text => (text, config.resolve text))).1 := by
  induction texts with
  | nil =>
      intro added set h
      rw [List.append_nil]
      exact h
  | cons text texts ih =>
      intro added set h
      have hstep := ih (h.record text)
      rw [List.append_assoc] at hstep
      exact hstep

/-- The answer counts the classes that have a rule. -/
theorem recordAll_snd (config : Config) (texts : List String) :
    ∀ set : RuleSet,
      (set.recordAll (texts.map fun text => (text, config.resolve text))).2 =
        texts.countP config.hasRule := by
  induction texts with
  | nil => intro set; rfl
  | cons text texts ih =>
      intro set
      rw [List.map_cons, RuleSet.recordAll, ih, record_snd, List.countP_cons]
      by_cases h : config.hasRule text = true <;> simp [h]

/-- A batch comes to the same without the classes that have no rule. -/
theorem recordAll_fst_filter (config : Config) (texts : List String) :
    ∀ set : RuleSet,
      (set.recordAll (texts.map fun text => (text, config.resolve text))).1 =
        (set.recordAll
          ((texts.filter config.hasRule).map fun text => (text, config.resolve text))).1 := by
  induction texts with
  | nil => intro set; rfl
  | cons text texts ih =>
      intro set
      by_cases h : config.hasRule text = true
      · rw [List.filter_cons_of_pos h]
        exact ih _
      · rw [List.filter_cons_of_neg h]
        have hsame := set.record_fst_of_not_hasRule (Bool.eq_false_iff.2 h)
        rw [List.map_cons, RuleSet.recordAll, hsame]
        exact ih set

theorem Collects.after {config : Config} {added : List String} {set : RuleSet}
    (h : Collects config added set) (addition : Addition) :
    Collects config (added ++ addition.texts) (set.after addition) := by
  cases addition with
  | one text =>
      unfold RuleSet.after add
      rw [h.config_eq]
      exact h.record text
  | many texts =>
      unfold RuleSet.after addAll
      rw [h.config_eq]
      exact h.recordAll texts

/-- **The run**: after any calls the set holds the rules of the classes in them. -/
theorem collects_afterAll (config : Config) (additions : List Addition) :
    Collects config (additions.flatMap Addition.texts) (afterAll config additions) := by
  -- from any set on, since the induction takes the calls off the front
  suffices hrun : ∀ (added : List String) (set : RuleSet), Collects config added set →
      Collects config (added ++ additions.flatMap Addition.texts) (additions.foldl after set) by
    exact hrun [] _ (collects_ofConfig config)
  induction additions with
  | nil =>
      intro added set h
      rw [List.flatMap_nil, List.append_nil]
      exact h
  | cons addition additions ih =>
      intro added set h
      rw [List.flatMap_cons, ← List.append_assoc]
      exact ih _ _ (h.after addition)

/-! ## §5. The listing. -/

/-- A line of a style sheet's listing. -/
structure Line where
  place : Nat
  text : String
  rule : Css.Rule
  deriving Repr, DecidableEq

namespace Line

/-- Strictly by place, then by class name in the order of code points. -/
def Before (a b : Line) : Prop := a.place < b.place ∨ a.place = b.place ∧ a.text < b.text

instance : Std.Irrefl Before := by
  constructor
  rintro a (h | ⟨-, h⟩)
  · exact Nat.lt_irrefl _ h
  · exact lt_irrefl _ h

instance : Std.Antisymm Before := by
  constructor
  rintro a b (h | ⟨hp, h⟩) (h' | ⟨hp', h'⟩)
  · omega
  · omega
  · omega
  · exact absurd h' (lt_asymm h)

end Line

/-- **The listing of some classes**: one line for each that has a rule, in strict
order. -/
structure IsListing (config : Config) (added : List String) (lines : List Line) : Prop where
  ordered : lines.Pairwise Line.Before
  mem_iff : ∀ line, line ∈ lines ↔
    line.text ∈ added ∧ config.resolve line.text = .ok (some line.rule) ∧
      ClassName.HasPlace line.text line.place

/-- The classes determine their listing; their order and repetitions do not matter. -/
theorem IsListing.eq {config : Config} {added added' : List String} {lines lines' : List Line}
    (h : IsListing config added lines) (h' : IsListing config added' lines')
    (hsame : ∀ text, text ∈ added ↔ text ∈ added') : lines = lines' := by
  refine List.Pairwise.eq_of_mem_iff h.ordered h'.ordered ?_
  intro line
  rw [h.mem_iff, h'.mem_iff, hsame]

/-- The lines of a set, in the order of its style sheet. -/
def lines (set : RuleSet) : List Line :=
  (set.rules.entries.mergeSort precedes).map fun entry => ⟨entry.2.place, entry.1, entry.2.rule⟩

theorem sorted_eq (set : RuleSet) : set.sorted = set.lines.map Line.rule := by
  unfold sorted lines
  rw [List.map_map]
  rfl

theorem precedes_iff {a b : String × PlacedRule} :
    precedes a b = true ↔ a.2.place < b.2.place ∨ a.2.place = b.2.place ∧ a.1 ≤ b.1 := by
  simp [precedes]

theorem precedes_trans (a b c : String × PlacedRule) (hab : precedes a b = true)
    (hbc : precedes b c = true) : precedes a c = true := by
  rw [precedes_iff] at *
  rcases hab with hab | ⟨hab, hab'⟩
  · rcases hbc with hbc | ⟨hbc, -⟩
    · exact .inl (hab.trans hbc)
    · exact .inl (hbc ▸ hab)
  · rcases hbc with hbc | ⟨hbc, hbc'⟩
    · exact .inl (hab ▸ hbc)
    · exact .inr ⟨hab.trans hbc, hab'.trans hbc'⟩

theorem precedes_total (a b : String × PlacedRule) : (precedes a b || precedes b a) = true := by
  rw [Bool.or_eq_true, precedes_iff, precedes_iff]
  rcases Nat.lt_trichotomy a.2.place b.2.place with h | h | h
  · exact .inl (.inl h)
  · rcases le_total a.1 b.1 with ht | ht
    · exact .inl (.inr ⟨h, ht⟩)
    · exact .inr (.inr ⟨h.symm, ht⟩)
  · exact .inr (.inl h)

/-- The keys of a map differ, so its entries are sorted strictly. -/
theorem ordered_lines (set : RuleSet) : set.lines.Pairwise Line.Before := by
  have hperm := List.mergeSort_perm set.rules.entries precedes
  have hkeys : ((set.rules.entries.mergeSort precedes).map Prod.fst).Nodup :=
    (hperm.map Prod.fst).nodup_iff.2 set.rules.nodup_keys
  have hsorted := List.pairwise_mergeSort precedes_trans precedes_total set.rules.entries
  unfold lines
  rw [List.pairwise_map]
  -- sorting leaves equal neighbours possible, and the keys rule them out
  refine hsorted.imp₂ ?_ (List.pairwise_map.1 hkeys)
  intro a b hab hne
  rcases precedes_iff.1 hab with h | ⟨hp, ht⟩
  · exact .inl h
  · exact .inr ⟨hp, lt_of_le_of_ne ht hne⟩

theorem mem_lines_iff {set : RuleSet} {line : Line} :
    line ∈ set.lines ↔ set.rules.get? line.text = some ⟨line.place, line.rule⟩ := by
  unfold lines
  rw [List.mem_map, OrderedMap.get?_eq_some_iff]
  constructor
  · intro hgiven
    obtain ⟨entry, hmem, rfl⟩ := hgiven
    exact List.mem_mergeSort.1 hmem
  · intro hmem
    exact ⟨_, List.mem_mergeSort.2 hmem, rfl⟩

theorem Collects.isListing {config : Config} {added : List String} {set : RuleSet}
    (h : Collects config added set) : IsListing config added set.lines := by
  refine ⟨set.ordered_lines, ?_⟩
  intro line
  rw [mem_lines_iff, h.get?_eq, ← Config.placed?_eq_some_iff]
  by_cases hm : line.text ∈ added <;> simp [hm]

/-! ## §6. What a set holds. -/

theorem Collects.rule?_eq_some_iff {config : Config} {added : List String} {set : RuleSet}
    (h : Collects config added set) {text : String} {rule : Css.Rule} :
    set.rule? text = some rule ↔ text ∈ added ∧ config.resolve text = .ok (some rule) := by
  unfold rule?
  rw [h.get?_eq]
  by_cases hm : text ∈ added
  · unfold Config.placed?
    rcases config.resolve text with _ | _ | found <;> simp [hm]
  · simp [hm]

/-- The size of a set is the number of classes that have a rule. -/
theorem Collects.size_eq {config : Config} {added : List String} {set : RuleSet}
    (h : Collects config added set) :
    set.size = (added.toFinset.filter fun text => config.hasRule text = true).card := by
  -- the keys are the classes with a rule, and no key occurs twice
  have hkeys : (set.rules.entries.map Prod.fst).toFinset =
      added.toFinset.filter fun text => config.hasRule text = true := by
    ext text
    rw [List.mem_toFinset, Finset.mem_filter, List.mem_toFinset, ← Config.isSome_placed?,
      Option.isSome_iff_exists, List.mem_map]
    constructor
    · intro hgiven
      obtain ⟨entry, hentry, rfl⟩ := hgiven
      have hget := OrderedMap.get?_eq_some_iff.2 hentry
      rw [h.get?_eq] at hget
      by_cases hm : entry.1 ∈ added
      · rw [if_pos hm] at hget
        exact ⟨hm, _, hget⟩
      · simp [hm] at hget
    · intro hgiven
      obtain ⟨hm, placed, hplaced⟩ := hgiven
      refine ⟨(text, placed), OrderedMap.get?_eq_some_iff.1 ?_, rfl⟩
      rw [h.get?_eq, if_pos hm, hplaced]
  rw [← hkeys, List.toFinset_card_of_nodup set.rules.nodup_keys, List.length_map]
  rfl

/-! ## §7. The style sheet after any calls. -/

theorem css_minified (set : RuleSet) :
    set.css .minified = String.join (set.lines.map fun line => line.rule.render .minified) := by
  unfold css Css.StyleSheet.render
  rw [sorted_eq, List.map_map]
  cases set.lines <;> rfl

theorem css_pretty (set : RuleSet) :
    set.css .pretty =
      if set.lines = [] then ""
      else String.intercalate "\n" (set.lines.map fun line => line.rule.render .pretty) ++ "\n" := by
  unfold css Css.StyleSheet.render
  rw [sorted_eq, List.map_map]
  cases set.lines <;> rfl

/-- **The classes that were added determine the set**: its rules, their number, its
style sheet in either layout, and what the next call answers. -/
theorem afterAll_determined_by_classes (config : Config) (additions : List Addition) :
    let added := additions.flatMap Addition.texts
    let set := afterAll config additions
    (∀ text rule, set.rule? text = some rule ↔
      text ∈ added ∧ config.resolve text = .ok (some rule)) ∧
    set.size = (added.toFinset.filter fun text => config.hasRule text = true).card ∧
    (∃ lines, IsListing config added lines ∧
      set.css .minified = String.join (lines.map fun line => line.rule.render .minified) ∧
      set.css .pretty =
        if lines = [] then ""
        else String.intercalate "\n" (lines.map fun line => line.rule.render .pretty) ++ "\n") ∧
    (∀ additions' : List Addition,
      (∀ text, text ∈ additions'.flatMap Addition.texts ↔ text ∈ added) →
        ∀ layout, (afterAll config additions').css layout = set.css layout) ∧
    (∀ text, (set.add text).2 = config.hasRule text ∧
      (config.hasRule text = false → (set.add text).1 = set)) ∧
    (∀ texts, (set.addAll texts).2 = texts.countP config.hasRule ∧
      (set.addAll texts).1 = (set.addAll (texts.filter config.hasRule)).1) := by
  intro added set
  have hset : Collects config added set := collects_afterAll config additions
  refine ⟨?_, hset.size_eq, ⟨set.lines, hset.isListing, set.css_minified, set.css_pretty⟩,
    ?_, ?_, ?_⟩
  · intro text rule
    exact hset.rule?_eq_some_iff
  · -- the same classes have the same listing, and the style sheet is read off it
    intro additions' hsame layout
    have hlines := (collects_afterAll config additions').isListing.eq hset.isListing hsame
    unfold css
    rw [sorted_eq, sorted_eq, hlines]
  · intro text
    unfold add
    rw [hset.config_eq]
    exact ⟨record_snd set config text, record_fst_of_not_hasRule set⟩
  · intro texts
    unfold addAll
    rw [hset.config_eq]
    exact ⟨recordAll_snd config texts set, recordAll_fst_filter config texts set⟩

end RuleSet

end FluidClamp
