/-
  FluidClamp.Proofs.CommandLine.Parts
  ───────────────────────────────────
  **COMMAND LINES IN PARTS.**

  A command line is written in parts: words that stand on their own, and switches with
  a value behind each.  A part is read as it was written as long as no text in it is
  taken for a switch:

      a word                  begins with no dash
      a switch with a value   the value begins with no dash and passes its check

  (`IsPlain`), so plain parts are read as the arguments that they write, in any order
  (`exists_readAll_of_isPlain`).  Of the others, a value with a dash leaves the switch
  before it without one, which is refused (`readAll_ne_ok_of_valued`); and a word with a
  dash is never the word of the command, whatever else it is read as
  (`shorthand_of_readAll`).
-/
import FluidClamp.CommandLine.Arguments
import Mathlib.Data.List.Nodup

namespace FluidClamp.CommandLine

/-! ## §1. Parts. -/

/-- Whether a text is taken for a switch: it begins with a dash, and is not that dash
alone. -/
def LooksLikeSwitch (text : String) : Prop := text.toList.head? = some '-' ∧ text ≠ "-"

instance (text : String) : Decidable (LooksLikeSwitch text) :=
  inferInstanceAs (Decidable (text.toList.head? = some '-' ∧ text ≠ "-"))

theorem looksLikeSwitch_iff {text : String} :
    LooksLikeSwitch text ↔ ∃ letter rest, text.toList = '-' :: letter :: rest := by
  constructor
  · intro h
    obtain ⟨hdash, hlong⟩ := h
    cases htext : text.toList with
    | nil =>
      rw [htext] at hdash
      exact nomatch hdash
    | cons c rest =>
      rw [htext] at hdash
      obtain rfl := Option.some.inj hdash
      cases rest with
      | nil => exact absurd (String.toList_injective htext) hlong
      | cons letter rest => exact ⟨letter, rest, rfl⟩
  · intro h
    obtain ⟨letter, rest, htext⟩ := h
    refine ⟨by rw [htext]; rfl, ?_⟩
    rintro rfl
    exact nomatch htext

/-- A part of a command line. -/
inductive Part where
  /-- A word that stands on its own. -/
  | word (text : String)
  /-- A switch, as it is written, and its value. -/
  | valued (switch : Switch) (spelling value : String)

/-- How a switch is written. -/
inductive IsSpelling : Switch → String → Prop where
  | name (switch : Switch) : IsSpelling switch ("--" ++ switch.name)
  | letter {switch : Switch} {letter : Char} (h : switch.letter? = some letter) :
      IsSpelling switch ("-" ++ String.singleton letter)

namespace Part

def words : Part → List String
  | .word text => [text]
  | .valued _ spelling value => [spelling, value]

/-- The text at the end of a part. -/
def value : Part → String
  | .word text => text
  | .valued _ _ value => value

/-- The words that stand on their own. -/
def texts : List Part → List String
  | [] => []
  | .word text :: rest => text :: texts rest
  | .valued _ _ _ :: rest => texts rest

/-- The switches with their values. -/
def given : List Part → List (Switch × List String)
  | [] => []
  | .word _ :: rest => given rest
  | .valued switch _ value :: rest => (switch, [value]) :: given rest

theorem mem_texts {text : String} {parts : List Part} (h : .word text ∈ parts) :
    text ∈ texts parts := by
  induction parts with
  | nil => exact nomatch h
  | cons part parts ih =>
    rcases List.mem_cons.1 h with rfl | hrest
    · exact List.mem_cons_self
    · cases part with
      | word other => exact List.mem_cons_of_mem _ (ih hrest)
      | valued switch spelling value => exact ih hrest

theorem mem_given_iff {switch : Switch} {value : String} {parts : List Part} :
    (switch, [value]) ∈ given parts ↔ ∃ spelling, .valued switch spelling value ∈ parts := by
  induction parts with
  | nil => simp [given]
  | cons part parts ih =>
    cases part with
    | word text => simpa [given] using ih
    | valued other spelling text => simp [given, ih, exists_or]

/-- The switches are switches of the command that take one value. -/
def IsSpelled (command : Subcommand) : Part → Prop
  | .word _ => True
  | .valued switch spelling _ =>
      switch ∈ command.switches ∧ (∃ kind, switch.kind = .single kind) ∧
        IsSpelling switch spelling

/-- Nothing in the part is taken for a switch but the switch, and its value passes. -/
def IsPlain : Part → Prop
  | .word text => ¬ LooksLikeSwitch text
  | .valued switch _ value => ¬ LooksLikeSwitch value ∧ switch.kind.check [value] = .ok ()

end Part

/-! ## §2. One argument. -/

/-- What goes on after a step came out of it. -/
theorem exists_of_bind_eq_ok {ε α β : Type} {x : Except ε α} {f : α → Except ε β} {b : β}
    (h : x.bind f = .ok b) : ∃ a, x = .ok a ∧ f a = .ok b := by
  cases x with
  | error e => exact nomatch h
  | ok a => exact ⟨a, rfl, h⟩

theorem throw_ne_ok {ε α : Type} {e : ε} {a : α} : (throw e : Except ε α) ≠ .ok a :=
  fun h => nomatch (show Except.error e = .ok a from h)

variable {command : Subcommand} {switch : Switch} {arguments : Arguments}
  {reading after : Reading} {argument spelling value : String}

theorem named?_name (h : switch ∈ command.switches) :
    command.named? switch.name = some switch := by
  revert switch
  cases command <;> decide

theorem lettered?_letter (h : switch ∈ command.switches) {letter : Char}
    (hletter : switch.letter? = some letter) : command.lettered? letter = some switch := by
  have hfound : ∀ switch ∈ command.switches,
      switch.letter?.bind command.lettered? = switch.letter?.map fun _ => switch := by
    cases command <;> decide
  have hswitch := hfound switch h
  rwa [hletter] at hswitch

theorem cutAt?_name (switch : Switch) : cutAt? ['='] switch.name.toList = none := by
  cases switch <;> rfl

theorem IsSpelling.ne_dashes (h : IsSpelling switch spelling) : spelling ≠ "--" := by
  cases h with
  | name => cases switch <;> decide
  | letter hletter => cases switch <;> cases hletter <;> decide

/-- **A switch waits for its value.** -/
theorem readArgument_of_isSpelling (hswitch : switch ∈ command.switches)
    (hkind : ∃ kind, switch.kind = .single kind) (h : IsSpelling switch spelling)
    (reading : Reading) :
    Reading.readArgument command reading spelling = reading.await switch := by
  have htakes : Reading.takesValues switch = true := by
    obtain ⟨kind, hkind⟩ := hkind
    unfold Reading.takesValues
    rw [hkind]
    rfl
  cases h with
  | name =>
    have htext : ("--" ++ switch.name).toList = '-' :: '-' :: switch.name.toList := by
      rw [String.toList_append]
      rfl
    unfold Reading.readArgument Reading.readName
    rw [htext]
    simp only [cutAt?_name, String.ofList_toList, named?_name hswitch, htakes, if_true]
  | @letter letter hletter =>
    have htext : ("-" ++ String.singleton letter).toList = ['-', letter] := by
      rw [String.toList_append, String.toList_singleton]
      rfl
    have hdash : letter ≠ '-' := by
      rintro rfl
      cases switch <;> exact absurd hletter (by decide)
    unfold Reading.readArgument
    rw [htext]
    split
    · next heq => exact absurd (List.cons.inj (List.cons.inj heq).2).1 hdash
    · next heq =>
      obtain ⟨rfl, rfl⟩ := List.cons.inj (List.cons.inj heq).2
      unfold Reading.readLetters
      simp only [lettered?_letter hswitch hletter, htakes, if_true]
    · next hnot => exact absurd rfl (hnot letter [])

/-- What is not taken for a switch is a value. -/
theorem readArgument_of_not (h : ¬ LooksLikeSwitch argument) (reading : Reading) :
    Reading.readArgument command reading argument =
      Reading.readValue command reading argument := by
  rw [looksLikeSwitch_iff] at h
  unfold Reading.readArgument
  split
  · next heq => exact absurd ⟨_, _, heq⟩ h
  · next heq => exact absurd ⟨_, _, heq⟩ h
  · rfl

/-! ## §3. Steps that settle what was read before. -/

namespace Reading

theorem shorthand_of_add {given : Arguments} {values : List String}
    (h : arguments.add switch values = .ok given) : given.shorthand = arguments.shorthand := by
  have hlast : (switch.kind.check values).bind (fun _ =>
      .ok { arguments with given := arguments.given ++ [(switch, values)] }) = .ok given := by
    unfold Arguments.add at h
    dsimp only at h
    split at h
    · obtain ⟨_, hthrow, -⟩ := exists_of_bind_eq_ok h
      exact absurd hthrow throw_ne_ok
    · split at h
      · exact h
      all_goals
        split at h
        · obtain ⟨_, hthrow, -⟩ := exists_of_bind_eq_ok h
          exact absurd hthrow throw_ne_ok
        · exact h
  obtain ⟨-, -, hgiven⟩ := exists_of_bind_eq_ok hlast
  obtain rfl := Except.ok.inj hgiven
  rfl

theorem shorthand_of_settle (h : reading.settle = .ok after) :
    after.arguments.shorthand = reading.arguments.shorthand := by
  unfold settle at h
  split at h
  · obtain rfl := Except.ok.inj h
    rfl
  · obtain ⟨given, hadd, h⟩ := exists_of_bind_eq_ok h
    obtain rfl := Except.ok.inj h
    exact shorthand_of_add hadd

/-- The step settled what was read before, and it sets no word. -/
structure Settles (reading after : Reading) : Prop where
  settle_eq : ∃ settled, reading.settle = .ok settled
  shorthand_eq : after.arguments.shorthand = reading.arguments.shorthand

theorem settles_add {values : List String} (h : reading.add switch values = .ok after) :
    Settles reading after := by
  obtain ⟨settled, hsettle, h⟩ := exists_of_bind_eq_ok h
  obtain ⟨given, hadd, h⟩ := exists_of_bind_eq_ok h
  obtain rfl := Except.ok.inj h
  exact ⟨⟨settled, hsettle⟩, (shorthand_of_add hadd).trans (shorthand_of_settle hsettle)⟩

theorem pending_of_await (h : reading.await switch = .ok after) :
    after.pending = some (switch, []) := by
  obtain ⟨settled, -, h⟩ := exists_of_bind_eq_ok h
  obtain rfl := Except.ok.inj h
  rfl

theorem settles_await (h : reading.await switch = .ok after) : Settles reading after := by
  obtain ⟨settled, hsettle, h⟩ := exists_of_bind_eq_ok h
  obtain rfl := Except.ok.inj h
  have hsame := shorthand_of_settle hsettle
  exact ⟨⟨settled, hsettle⟩, hsame⟩

theorem settles_turnOn (h : turnOn command reading switch = .ok after) :
    Settles reading after := by
  unfold turnOn at h
  split at h
  · obtain ⟨settled, -, h⟩ := exists_of_bind_eq_ok h
    exact absurd h throw_ne_ok
  · exact settles_add h

theorem settles_readName {text : List Char} (h : readName command reading text = .ok after) :
    Settles reading after := by
  unfold readName at h
  dsimp only at h
  split at h
  · exact nomatch h
  · split at h
    · exact settles_add h
    · exact nomatch h
  · split at h
    · exact settles_await h
    · exact settles_turnOn h

/-- The first letter settles, and no letter sets a word. -/
theorem settles_readLetters {letters : List Char} (hletters : letters ≠ [])
    (h : readLetters command reading letters = .ok after) : Settles reading after := by
  induction letters generalizing reading with
  | nil => exact absurd rfl hletters
  | cons letter rest ih =>
    unfold readLetters at h
    split at h
    · exact nomatch h
    · split at h
      · split at h
        · exact settles_await h
        · exact settles_add h
        · exact settles_add h
      · obtain ⟨turned, hturn, h⟩ := exists_of_bind_eq_ok h
        have hturned := settles_turnOn hturn
        cases rest with
        | nil =>
          obtain rfl := Except.ok.inj h
          exact hturned
        | cons next rest =>
          have hrest := ih (List.cons_ne_nil _ _) h
          exact ⟨hturned.settle_eq, hrest.shorthand_eq.trans hturned.shorthand_eq⟩

/-- **What is taken for a switch settles what was read before.** -/
theorem settles_of_looksLikeSwitch (hargument : LooksLikeSwitch argument)
    (h : readArgument command reading argument = .ok after) : Settles reading after := by
  obtain ⟨letter, rest, htext⟩ := looksLikeSwitch_iff.1 hargument
  unfold readArgument at h
  split at h
  · exact settles_readName h
  · exact settles_readLetters (List.cons_ne_nil _ _) h
  · next hnot => exact absurd htext (hnot letter rest)

/-! ## §4. One part. -/

theorem readAll_cons (h : argument ≠ "--") (reading : Reading) (rest : List String) :
    readAll command reading (argument :: rest) =
      (readArgument command reading argument).bind (readAll command · rest) := by
  rw [readAll, if_neg h]
  rfl

theorem readAll_append {front : List String} (h : "--" ∉ front) (reading : Reading)
    (rest : List String) :
    readAll command reading (front ++ rest) =
      (readAll command reading front).bind (readAll command · rest) := by
  induction front generalizing reading with
  | nil => rfl
  | cons argument front ih =>
    rw [List.mem_cons, not_or] at h
    obtain ⟨hargument, hfront⟩ := h
    rw [List.cons_append, readAll_cons (Ne.symm hargument), readAll_cons (Ne.symm hargument)]
    cases readArgument command reading argument with
    | error refusal => rfl
    | ok reading => exact ih hfront reading

/-- What was read comes to these arguments, and the last switch takes no more values. -/
structure Rests (reading : Reading) (arguments : Arguments) : Prop where
  settle_eq : reading.settle = .ok ⟨arguments, none⟩
  full : ∀ pending ∈ reading.pending, pending.1.kind.takesMore pending.2.length = false

theorem rests_settled (arguments : Arguments) : Rests ⟨arguments, none⟩ arguments :=
  ⟨rfl, fun _ h => nomatch h⟩

theorem add_of_single {kind : ValueKind} (hkind : switch.kind = .single kind)
    (hcheck : switch.kind.check [value] = .ok ()) (hnew : arguments.has switch = false) :
    arguments.add switch [value] =
      .ok { arguments with given := arguments.given ++ [(switch, [value])] } := by
  rw [hkind] at hcheck
  unfold Arguments.add
  simp only [hkind, hnew, hcheck, SwitchKind.least, List.length_singleton, Nat.lt_irrefl, if_false,
    Bool.false_eq_true]
  rfl

theorem readWord_of_rests (hcommand : command.takesShorthand = true)
    (hrests : Rests reading arguments) (hnone : arguments.shorthand = none) (value : String) :
    readWord command reading value =
      .ok ⟨{ arguments with shorthand := some value }, none⟩ := by
  have hfree : reading.arguments.shorthand = none :=
    (shorthand_of_settle hrests.settle_eq).symm.trans hnone
  unfold readWord
  rw [if_pos ⟨hcommand, hfree⟩, hrests.settle_eq]
  rfl

/-- **Behind two dashes every word is the word of the command.** -/
theorem readAll_dashes (hcommand : command.takesShorthand = true)
    (hrests : Rests reading arguments) (hnone : arguments.shorthand = none) (value : String) :
    readAll command reading ["--", value] =
      .ok ⟨{ arguments with shorthand := some value }, none⟩ := by
  rw [readAll, if_pos rfl]
  change (readWord command reading value).bind _ = _
  rw [readWord_of_rests hcommand hrests hnone]
  rfl

/-- **A word that is not taken for a switch is the word of the command.** -/
theorem readAll_word (hcommand : command.takesShorthand = true) (hrests : Rests reading arguments)
    (hnone : arguments.shorthand = none) (h : ¬ LooksLikeSwitch value) :
    readAll command reading [value] =
      .ok ⟨{ arguments with shorthand := some value }, none⟩ := by
  have hne : value ≠ "--" := by
    rintro rfl
    exact h (by decide)
  have hvalue : readValue command reading value = readWord command reading value := by
    unfold readValue
    split
    · next switch values hpending =>
      rw [hrests.full _ hpending]
      rfl
    · rfl
  rw [readAll_cons hne, readArgument_of_not h, hvalue,
    readWord_of_rests hcommand hrests hnone]
  rfl

/-- **A switch is given the value behind it**, unless that is taken for a switch. -/
theorem readAll_valued (hspelled : (Part.valued switch spelling value).IsSpelled command)
    (hplain : (Part.valued switch spelling value).IsPlain) (hrests : Rests reading arguments)
    (hnew : arguments.has switch = false) :
    ∃ after, readAll command reading [spelling, value] = .ok after ∧
      Rests after { arguments with given := arguments.given ++ [(switch, [value])] } := by
  obtain ⟨hswitch, ⟨kind, hkind⟩, hspelling⟩ := hspelled
  obtain ⟨hdash, hcheck⟩ := hplain
  have hne : value ≠ "--" := by
    rintro rfl
    exact hdash (by decide)
  have hawait : reading.await switch = .ok ⟨arguments, some (switch, [])⟩ := by
    unfold await
    rw [hrests.settle_eq]
    rfl
  have hvalue : readValue command ⟨arguments, some (switch, [])⟩ value =
      .ok ⟨arguments, some (switch, [value])⟩ := by
    have htakes : switch.kind.takesMore 0 = true := by
      rw [hkind]
      rfl
    exact if_pos htakes
  refine ⟨⟨arguments, some (switch, [value])⟩, ?_, ?_, ?_⟩
  · rw [readAll_cons hspelling.ne_dashes, readArgument_of_isSpelling hswitch ⟨kind, hkind⟩ hspelling,
      hawait]
    change readAll command ⟨arguments, some (switch, [])⟩ [value] = _
    rw [readAll_cons hne, readArgument_of_not hdash, hvalue]
    rfl
  · change (arguments.add switch [value]).bind (fun given => .ok (Reading.mk given none)) = _
    rw [add_of_single hkind hcheck hnew]
    rfl
  · intro pending hpending
    obtain rfl := Option.some.inj hpending
    rw [hkind]
    rfl

/-- What reading a switch and its value comes through: the switch waits, and the value
is read behind it. -/
theorem exists_awaiting (hspelled : (Part.valued switch spelling value).IsSpelled command)
    (hne : value ≠ "--") (h : readAll command reading [spelling, value] = .ok after) :
    ∃ awaiting, reading.await switch = .ok awaiting ∧
      readArgument command awaiting value = .ok after := by
  obtain ⟨hswitch, hkind, hspelling⟩ := hspelled
  rw [readAll_cons hspelling.ne_dashes, readArgument_of_isSpelling hswitch hkind hspelling] at h
  obtain ⟨awaiting, hawait, h⟩ := exists_of_bind_eq_ok h
  rw [readAll_cons hne] at h
  obtain ⟨given, hvalue, h⟩ := exists_of_bind_eq_ok h
  obtain rfl := Except.ok.inj h
  exact ⟨awaiting, hawait, hvalue⟩

/-- A switch with a value sets no word, whatever the value is taken for. -/
theorem shorthand_of_readAll_valued
    (hspelled : (Part.valued switch spelling value).IsSpelled command) (hne : value ≠ "--")
    (h : readAll command reading [spelling, value] = .ok after) :
    after.arguments.shorthand = reading.arguments.shorthand := by
  obtain ⟨awaiting, hawait, hvalue⟩ := exists_awaiting hspelled hne h
  have hsame := (settles_await hawait).shorthand_eq
  rw [← hsame]
  by_cases hlooks : LooksLikeSwitch value
  · exact (settles_of_looksLikeSwitch hlooks hvalue).shorthand_eq
  · obtain ⟨-, ⟨kind, hkind⟩, -⟩ := hspelled
    have htakes : switch.kind.takesMore 0 = true := by
      rw [hkind]
      rfl
    rw [readArgument_of_not hlooks] at hvalue
    unfold readValue at hvalue
    simp only [pending_of_await hawait, List.length_nil, htakes, if_true] at hvalue
    obtain rfl := Except.ok.inj hvalue
    rfl

/-- **A value that is taken for a switch is refused**: the switch before it is left
without one. -/
theorem readAll_valued_ne_ok (hspelled : (Part.valued switch spelling value).IsSpelled command)
    (hne : value ≠ "--") (hlooks : LooksLikeSwitch value) :
    readAll command reading [spelling, value] ≠ .ok after := by
  intro h
  obtain ⟨awaiting, hawait, hvalue⟩ := exists_awaiting hspelled hne h
  obtain ⟨settled, hsettle⟩ := (settles_of_looksLikeSwitch hlooks hvalue).settle_eq
  obtain ⟨-, ⟨kind, hkind⟩, -⟩ := hspelled
  unfold settle at hsettle
  rw [pending_of_await hawait] at hsettle
  obtain ⟨given, hadd, -⟩ := exists_of_bind_eq_ok hsettle
  unfold Arguments.add at hadd
  rw [hkind] at hadd
  exact absurd hadd throw_ne_ok

/-! ## §5. All parts of a command line. -/

variable {parts : List Part}

theorem not_mem_words {part : Part} (hspelled : part.IsSpelled command)
    (hne : part.value ≠ "--") : "--" ∉ part.words := by
  cases part with
  | word text => exact fun hmem => hne (List.mem_singleton.1 hmem).symm
  | valued switch spelling value =>
    intro hmem
    rcases List.mem_cons.1 hmem with heq | hmem
    · exact hspelled.2.2.ne_dashes heq.symm
    · exact hne (List.mem_singleton.1 hmem).symm

theorem value_ne_of_isPlain {part : Part} (h : part.IsPlain) : part.value ≠ "--" := by
  have hlooks : LooksLikeSwitch "--" := by decide
  intro heq
  cases part with
  | word text =>
    obtain rfl : text = "--" := heq
    exact h hlooks
  | valued switch spelling value =>
    obtain rfl : value = "--" := heq
    exact h.1 hlooks

/-- A switch that comes up once is not there before. -/
theorem has_eq_false_of_nodup {values : List String} {rest : List (Switch × List String)}
    (h : ((arguments.given ++ (switch, values) :: rest).map Prod.fst).Nodup) :
    arguments.has switch = false := by
  rw [List.map_append] at h
  have hfree := (List.nodup_append.1 h).2.2
  unfold Arguments.has
  rw [List.any_eq_false]
  intro given hgiven hsame
  exact hfree given.1 (List.mem_map_of_mem hgiven) switch List.mem_cons_self
    (of_decide_eq_true hsame)

/-- **Plain parts are read as the arguments that they write**: at most one word, and
each switch at most once. -/
theorem exists_readAll_of_isPlain (hcommand : command.takesShorthand = true)
    (hspelled : ∀ part ∈ parts, part.IsSpelled command) (hplain : ∀ part ∈ parts, part.IsPlain)
    (hrests : Rests reading arguments)
    (hwords : (arguments.shorthand.toList ++ Part.texts parts).length ≤ 1)
    (hswitches : ((arguments.given ++ Part.given parts).map Prod.fst).Nodup) :
    ∃ after, readAll command reading (parts.flatMap Part.words) = .ok after ∧
      Rests after ⟨arguments.given ++ Part.given parts,
        (arguments.shorthand.toList ++ Part.texts parts).head?⟩ := by
  induction parts generalizing reading arguments with
  | nil =>
    refine ⟨reading, rfl, ?_⟩
    have hsame : arguments.shorthand.toList.head? = arguments.shorthand := by
      cases arguments.shorthand <;> rfl
    unfold Part.texts Part.given
    rw [List.append_nil, List.append_nil, hsame]
    exact hrests
  | cons part parts ih =>
    rw [List.forall_mem_cons] at hspelled hplain
    have hmem := not_mem_words hspelled.1 (value_ne_of_isPlain hplain.1)
    rw [List.flatMap_cons, readAll_append hmem]
    cases part with
    | word text =>
      rw [Part.texts] at hwords
      rw [Part.given] at hswitches
      rw [Part.texts, Part.given]
      have hnone : arguments.shorthand = none := by
        cases hshorthand : arguments.shorthand with
        | none => rfl
        | some other =>
          rw [hshorthand] at hwords
          exact absurd hwords (by simp)
      rw [hnone] at hwords ⊢
      have hword := readAll_word hcommand hrests hnone hplain.1
      obtain ⟨after, hafter, hlast⟩ :=
        ih hspelled.2 hplain.2 (rests_settled { arguments with shorthand := some text }) hwords
          hswitches
      refine ⟨after, ?_, hlast⟩
      change (readAll command reading [text]).bind _ = _
      rw [hword]
      exact hafter
    | valued switch spelling value =>
      rw [Part.texts] at hwords
      rw [Part.given] at hswitches
      have hnew := has_eq_false_of_nodup hswitches
      rw [List.append_cons] at hswitches
      rw [Part.texts, Part.given, List.append_cons]
      obtain ⟨middle, hmiddle, hrests'⟩ := readAll_valued hspelled.1 hplain.1 hrests hnew
      obtain ⟨after, hafter, hlast⟩ := ih hspelled.2 hplain.2 hrests' hwords hswitches
      refine ⟨after, ?_, hlast⟩
      change (readAll command reading [spelling, value]).bind _ = _
      rw [hmiddle]
      exact hafter

/-- **Without a plain word no word is set.** -/
theorem shorthand_of_readAll (hspelled : ∀ part ∈ parts, part.IsSpelled command)
    (hne : ∀ part ∈ parts, part.value ≠ "--")
    (hwords : ∀ word ∈ Part.texts parts, LooksLikeSwitch word)
    (h : readAll command reading (parts.flatMap Part.words) = .ok after) :
    after.arguments.shorthand = reading.arguments.shorthand := by
  induction parts generalizing reading with
  | nil =>
    obtain rfl := Except.ok.inj h
    rfl
  | cons part parts ih =>
    rw [List.forall_mem_cons] at hspelled hne
    rw [List.flatMap_cons, readAll_append (not_mem_words hspelled.1 hne.1)] at h
    obtain ⟨middle, hmiddle, hrest⟩ := exists_of_bind_eq_ok h
    cases part with
    | word text =>
      rw [Part.texts, List.forall_mem_cons] at hwords
      rw [ih hspelled.2 hne.2 hwords.2 hrest]
      have htext : text ≠ "--" := hne.1
      rw [Part.words, readAll_cons htext] at hmiddle
      obtain ⟨read, hread, hlast⟩ := exists_of_bind_eq_ok hmiddle
      obtain rfl := Except.ok.inj hlast
      exact (settles_of_looksLikeSwitch hwords.1 hread).shorthand_eq
    | valued switch spelling value =>
      rw [Part.texts] at hwords
      rw [ih hspelled.2 hne.2 hwords hrest]
      exact shorthand_of_readAll_valued hspelled.1 hne.1 hmiddle

/-- **No command line is read with a value that is taken for a switch.** -/
theorem readAll_ne_ok_of_valued (hspelled : ∀ part ∈ parts, part.IsSpelled command)
    (hne : ∀ part ∈ parts, part.value ≠ "--")
    (hmem : Part.valued switch spelling value ∈ parts) (hlooks : LooksLikeSwitch value) :
    readAll command reading (parts.flatMap Part.words) ≠ .ok after := by
  intro h
  induction parts generalizing reading with
  | nil => exact nomatch hmem
  | cons part parts ih =>
    rw [List.forall_mem_cons] at hspelled hne
    rw [List.flatMap_cons, readAll_append (not_mem_words hspelled.1 hne.1)] at h
    obtain ⟨middle, hmiddle, hrest⟩ := exists_of_bind_eq_ok h
    rcases List.mem_cons.1 hmem with rfl | hmem
    · exact readAll_valued_ne_ok hspelled.1 hne.1 hlooks hmiddle
    · exact ih hspelled.2 hne.2 hmem hrest

end Reading

end FluidClamp.CommandLine
