/-
  FluidClamp.Proofs.Text.Taken
  ────────────────────────────
  **WHAT AN EXPRESSION CAN TAKE.**

  `Takes` says what an expression takes and keeps, by its form and without a word on
  preferences or on what follows.  The matches at the front of a text are exactly
  the pieces that can be taken there (`mem_takings_iff`), so

    • whether an expression matches a whole text is a question about `Takes`,
    • whatever the preferences choose, the groups are among those that `Takes` allows.
-/
import FluidClamp.Proofs.Text.Regex

namespace FluidClamp.Regex

/-! ## §1. The relation. -/

/-- **What an expression takes**, and what it keeps in groups; `isStart` says whether it
is at the start of the whole text. -/
inductive Takes : (isStart : Bool) → Regex → List Char → List (List Char) → Prop where
  | nothing {isStart : Bool} : Takes isStart .nothing [] []
  | start : Takes true .start [] []
  | one {isStart : Bool} {isMember : Char → Bool} {c : Char} (h : isMember c = true) :
      Takes isStart (.one isMember) [c] []
  | seq {isStart : Bool} {p q : Regex} {s t : List Char} {gs hs : List (List Char)}
      (first : Takes isStart p s gs) (second : Takes (isStart && s.isEmpty) q t hs) :
      Takes isStart (.seq p q) (s ++ t) (gs ++ hs)
  | left {isStart : Bool} {p q : Regex} {s : List Char} {gs : List (List Char)}
      (h : Takes isStart p s gs) : Takes isStart (.either p q) s gs
  | right {isStart : Bool} {p q : Regex} {s : List Char} {gs : List (List Char)}
      (h : Takes isStart q s gs) : Takes isStart (.either p q) s gs
  | done {isStart : Bool} {p : Regex} : Takes isStart (.many p) [] []
  | again {isStart : Bool} {p : Regex} {s t : List Char} {gs hs : List (List Char)}
      (first : Takes isStart p s gs) (hne : s ≠ []) (others : Takes false (.many p) t hs) :
      Takes isStart (.many p) (s ++ t) (gs ++ hs)
  | group {isStart : Bool} {p : Regex} {s : List Char} {gs : List (List Char)}
      (h : Takes isStart p s gs) : Takes isStart (.group p) s (s :: gs)

/-! ## §2. Matches are what can be taken. -/

theorem text_eq_of_mem_takings {isStart : Bool} {p : Regex} {text : List Char} {a : Taking}
    (h : a ∈ takings isStart p text) : text = a.taken ++ a.rest := by
  obtain ⟨m, -, rfl⟩ := List.mem_map.1 h
  exact m.text_eq

/-- **Every match takes what its expression can take.** -/
theorem takes_of_mem_takings (p : Regex) :
    ∀ (isStart : Bool) (text : List Char), ∀ a ∈ takings isStart p text,
      Takes isStart p a.taken a.groups := by
  -- by the form of the expression; each form has its equation for `takings`
  induction p with
  | nothing =>
    intro isStart text a ha
    rw [takings_nothing, List.mem_singleton] at ha
    subst ha
    exact .nothing
  | start =>
    intro isStart text a ha
    rw [takings_start] at ha
    split at ha
    · next hstart =>
      rw [List.mem_singleton] at ha
      subst ha hstart
      exact .start
    · exact absurd ha List.not_mem_nil
  | one isMember =>
    intro isStart text a ha
    cases text with
    | nil =>
      rw [takings_one_nil] at ha
      exact absurd ha List.not_mem_nil
    | cons c text =>
      rw [takings_one_cons] at ha
      split at ha
      · next hc =>
        rw [List.mem_singleton] at ha
        subst ha
        exact .one hc
      · exact absurd ha List.not_mem_nil
  | seq p q ihp ihq =>
    intro isStart text a ha
    rw [takings_seq, List.mem_flatMap] at ha
    obtain ⟨b, hb, ha⟩ := ha
    obtain ⟨c, hc, rfl⟩ := List.mem_map.1 ha
    exact .seq (ihp isStart text b hb) (ihq _ _ c hc)
  | either p q ihp ihq =>
    intro isStart text a ha
    rw [takings_either, List.mem_append] at ha
    rcases ha with ha | ha
    · exact .left (ihp isStart text a ha)
    · exact .right (ihq isStart text a ha)
  | many p ih =>
    intro isStart text
    -- every round takes something, so the text that is left gets shorter
    induction hlength : text.length using Nat.strongRecOn generalizing isStart text with
    | ind length shorter =>
      intro a ha
      rw [takings_many, List.mem_append, List.mem_flatMap, List.mem_singleton] at ha
      rcases ha with ⟨b, hb, ha⟩ | rfl
      · split at ha
        · exact absurd ha List.not_mem_nil
        · next hne =>
          obtain ⟨c, hc, rfl⟩ := List.mem_map.1 ha
          have hshorter : b.rest.length < length := by
            have htext := congrArg List.length (text_eq_of_mem_takings hb)
            have hpos := List.length_pos_iff.2 hne
            rw [List.length_append] at htext
            omega
          exact .again (ih isStart text b hb) hne (shorter _ hshorter false b.rest rfl c hc)
      · exact .done
  | group p ih =>
    intro isStart text a ha
    rw [takings_group] at ha
    obtain ⟨b, hb, rfl⟩ := List.mem_map.1 ha
    exact .group (ih isStart text b hb)

/-- **What an expression can take is a match**, whatever follows. -/
theorem Takes.mem_takings {isStart : Bool} {p : Regex} {taken : List Char}
    {groups : List (List Char)} (h : Takes isStart p taken groups) :
    ∀ rest, ⟨groups, taken, rest⟩ ∈ takings isStart p (taken ++ rest) := by
  -- over the way it is taken; what comes later in a sequence is rest for what comes first
  induction h with
  | nothing =>
    intro rest
    rw [takings_nothing]
    exact List.mem_singleton_self _
  | start =>
    intro rest
    rw [takings_start, if_pos rfl]
    exact List.mem_singleton_self _
  | one hc =>
    intro rest
    rw [List.singleton_append, takings_one_cons, if_pos hc]
    exact List.mem_singleton_self _
  | @seq isStart p q s t gs hs first second ihp ihq =>
    intro rest
    rw [takings_seq, List.append_assoc, List.mem_flatMap]
    exact ⟨_, ihp (t ++ rest), List.mem_map.2 ⟨_, ihq rest, rfl⟩⟩
  | left _ ih =>
    intro rest
    rw [takings_either]
    exact List.mem_append_left _ (ih rest)
  | right _ ih =>
    intro rest
    rw [takings_either]
    exact List.mem_append_right _ (ih rest)
  | done =>
    intro rest
    rw [takings_many]
    exact List.mem_append_right _ (List.mem_singleton_self _)
  | @again isStart p s t gs hs first hne others ihp ihmany =>
    intro rest
    rw [takings_many, List.append_assoc]
    refine List.mem_append_left _ (List.mem_flatMap.2 ⟨_, ihp (t ++ rest), ?_⟩)
    rw [if_neg hne]
    exact List.mem_map.2 ⟨_, ihmany rest, rfl⟩
  | group _ ih =>
    intro rest
    rw [takings_group]
    exact List.mem_map.2 ⟨_, ih rest, rfl⟩

/-- **The matches at the front of a text** are the pieces of it that can be taken. -/
theorem mem_takings_iff {isStart : Bool} {p : Regex} {text : List Char} {a : Taking} :
    a ∈ takings isStart p text ↔
      text = a.taken ++ a.rest ∧ Takes isStart p a.taken a.groups := by
  constructor
  · intro h
    exact ⟨text_eq_of_mem_takings h, takes_of_mem_takings p isStart text a h⟩
  · rintro ⟨rfl, h⟩
    exact h.mem_takings a.rest

/-! ## §3. Whole texts. -/

/-- **The groups of the preferred match of a whole text**, if there is one. -/
def whole? (p : Regex) (text : List Char) : Option (List (List Char)) :=
  ((p.ways true text).find? fun m => m.rest.isEmpty).map Match.groups

theorem takes_of_whole? {p : Regex} {text : List Char} {groups : List (List Char)}
    (h : whole? p text = Option.some groups) : Takes true p text groups := by
  obtain ⟨m, hm, rfl⟩ := Option.map_eq_some_iff.1 h
  have hempty : m.rest.isEmpty = true := by
    simpa using List.find?_some hm
  have htaken : m.taken = text := by
    have htext := m.text_eq
    rw [List.isEmpty_iff.1 hempty, List.append_nil] at htext
    exact htext.symm
  have hmem : m.taking ∈ takings true p text :=
    List.mem_map_of_mem (List.mem_of_find?_eq_some hm)
  have htakes : Takes true p m.taken m.groups := (mem_takings_iff.1 hmem).2
  rw [htaken] at htakes
  exact htakes

/-- A whole text is matched exactly if it can be taken. -/
theorem whole?_eq_none_iff {p : Regex} {text : List Char} :
    whole? p text = none ↔ ∀ groups, ¬ Takes true p text groups := by
  constructor
  · -- what takes the whole text is a match with nothing behind it
    intro hnone groups htakes
    have hmem : ⟨groups, text, []⟩ ∈ takings true p text :=
      mem_takings_iff.2 ⟨(List.append_nil text).symm, htakes⟩
    obtain ⟨m, hm, htaking⟩ := List.mem_map.1 hmem
    have hrest : m.rest = [] := congrArg Taking.rest htaking
    have hfind := List.find?_eq_none.1 (Option.map_eq_none_iff.1 hnone) m hm
    exact hfind (List.isEmpty_iff.2 hrest)
  · intro hnone
    cases hwhole : whole? p text with
    | none => rfl
    | some groups => exact absurd (takes_of_whole? hwhole) (hnone groups)

/-! ## §4. Words and classes of characters. -/

variable {isStart : Bool} {isMember : Char → Bool} {taken : List Char} {groups : List (List Char)}

theorem takes_seq_iff {p q : Regex} :
    Takes isStart (.seq p q) taken groups ↔ ∃ s t gs hs, Takes isStart p s gs ∧
      Takes (isStart && s.isEmpty) q t hs ∧ taken = s ++ t ∧ groups = gs ++ hs := by
  constructor
  · rintro (_ | _ | _ | ⟨first, second⟩)
    exact ⟨_, _, _, _, first, second, rfl, rfl⟩
  · rintro ⟨s, t, gs, hs, first, second, rfl, rfl⟩
    exact .seq first second

theorem takes_either_iff {p q : Regex} :
    Takes isStart (.either p q) taken groups ↔
      Takes isStart p taken groups ∨ Takes isStart q taken groups := by
  constructor
  · rintro (_ | _ | _ | _ | h | h)
    · exact .inl h
    · exact .inr h
  · rintro (h | h)
    · exact .left h
    · exact .right h

theorem takes_nothing_iff : Takes isStart .nothing taken groups ↔ taken = [] ∧ groups = [] := by
  constructor
  · rintro ⟨⟩
    exact ⟨rfl, rfl⟩
  · rintro ⟨rfl, rfl⟩
    exact .nothing

theorem takes_start_iff :
    Takes isStart .start taken groups ↔ isStart = true ∧ taken = [] ∧ groups = [] := by
  constructor
  · rintro ⟨⟩
    exact ⟨rfl, rfl, rfl⟩
  · rintro ⟨rfl, rfl, rfl⟩
    exact .start

theorem takes_group_iff {p : Regex} :
    Takes isStart (.group p) taken groups ↔
      ∃ gs, Takes isStart p taken gs ∧ groups = taken :: gs := by
  constructor
  · rintro (_ | _ | _ | _ | _ | _ | _ | _ | h)
    exact ⟨_, h, rfl⟩
  · rintro ⟨gs, h, rfl⟩
    exact .group h

theorem takes_one_iff :
    Takes isStart (.one isMember) taken groups ↔
      ∃ c, isMember c = true ∧ taken = [c] ∧ groups = [] := by
  constructor
  · rintro (_ | _ | hc)
    exact ⟨_, hc, rfl, rfl⟩
  · rintro ⟨c, hc, rfl, rfl⟩
    exact .one hc

/-- A word takes itself. -/
theorem takes_literal_iff {word : List Char} :
    Takes isStart (literal word) taken groups ↔ taken = word ∧ groups = [] := by
  induction word generalizing isStart taken groups with
  | nil => exact takes_nothing_iff
  | cons c word ih =>
    unfold literal
    rw [takes_seq_iff]
    constructor
    · rintro ⟨s, t, gs, hs, first, second, rfl, rfl⟩
      obtain ⟨d, hd, rfl, rfl⟩ := takes_one_iff.1 first
      obtain ⟨rfl, rfl⟩ := ih.1 second
      obtain rfl := eq_of_beq hd
      exact ⟨rfl, rfl⟩
    · rintro ⟨rfl, rfl⟩
      exact ⟨[c], word, [], [], .one (beq_self_eq_true c), ih.2 ⟨rfl, rfl⟩, rfl, rfl⟩

/-- A repeated class takes any characters of it. -/
theorem takes_many_one_iff :
    Takes isStart (.many (.one isMember)) taken groups ↔
      (∀ c ∈ taken, isMember c = true) ∧ groups = [] := by
  constructor
  · intro h
    generalize hp : Regex.many (.one isMember) = p at h
    induction h with
    | done => exact ⟨fun c hc => absurd hc List.not_mem_nil, rfl⟩
    | again first _ _ _ ih =>
      obtain rfl := Regex.many.inj hp
      obtain ⟨c, hc, rfl, rfl⟩ := takes_one_iff.1 first
      obtain ⟨hall, rfl⟩ := ih rfl
      exact ⟨List.forall_mem_cons.2 ⟨hc, hall⟩, rfl⟩
    | _ => exact nomatch hp
  · rintro ⟨hall, rfl⟩
    induction taken generalizing isStart with
    | nil => exact .done
    | cons c taken ih =>
      obtain ⟨hc, htail⟩ := List.forall_mem_cons.1 hall
      exact .again (.one hc) (List.cons_ne_nil c []) (ih htail)

/-- At least once, it takes at least one. -/
theorem takes_some_one_iff :
    Takes isStart (some (.one isMember)) taken groups ↔
      taken ≠ [] ∧ (∀ c ∈ taken, isMember c = true) ∧ groups = [] := by
  unfold some
  rw [takes_seq_iff]
  constructor
  · rintro ⟨s, t, gs, hs, first, second, rfl, rfl⟩
    obtain ⟨c, hc, rfl, rfl⟩ := takes_one_iff.1 first
    obtain ⟨hall, rfl⟩ := takes_many_one_iff.1 second
    exact ⟨List.cons_ne_nil c t, List.forall_mem_cons.2 ⟨hc, hall⟩, rfl⟩
  · rintro ⟨hne, hall, rfl⟩
    obtain ⟨c, t, rfl⟩ := List.exists_cons_of_ne_nil hne
    obtain ⟨hc, htail⟩ := List.forall_mem_cons.1 hall
    exact ⟨[c], t, [], [], .one hc, takes_many_one_iff.2 ⟨htail, rfl⟩, rfl, rfl⟩

/-- An optional character of a class is there or not. -/
theorem takes_optional_one_iff :
    Takes isStart (optional (.one isMember)) taken groups ↔
      (taken = [] ∨ ∃ c, isMember c = true ∧ taken = [c]) ∧ groups = [] := by
  unfold optional
  rw [takes_either_iff, takes_one_iff, takes_nothing_iff]
  constructor
  · rintro (⟨c, hc, rfl, rfl⟩ | ⟨rfl, rfl⟩)
    · exact ⟨.inr ⟨c, hc, rfl⟩, rfl⟩
    · exact ⟨.inl rfl, rfl⟩
  · rintro ⟨rfl | ⟨c, hc, rfl⟩, rfl⟩
    · exact .inr ⟨rfl, rfl⟩
    · exact .inl ⟨c, hc, rfl, rfl⟩

end FluidClamp.Regex
