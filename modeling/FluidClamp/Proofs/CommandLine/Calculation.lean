/-
  FluidClamp.Proofs.CommandLine.Calculation
  ─────────────────────────────────────────
  **THE COMMAND LINE OF A CALCULATION.**

  A calculation that is accepted has a value.  The command line that asks for it names
  the command, and then, in any order, the shorthand and each switch that is used with
  its value behind it (`Gives`).  Whether it prints the value is a question of dashes:

      the shorthand begins with one        refused, unless two dashes stand before it
      the configuration's path does        refused
      the root font size does              it is no root font size
      neither                              the value, on a line of its own

  (`command_line_prints_iff`).  Sizes may be negative, and the first anchor may leave
  out its screen, so shorthands that begin with a dash are accepted like all others;
  it is the command line that takes them for switches.
-/
import FluidClamp.Program
import FluidClamp.Proofs.CommandLine.Parts
import FluidClamp.Proofs.RuleSet.Origin

namespace FluidClamp

open CommandLine

/-! ## §1. What an accepted calculation says. -/

namespace CalculationRequest

variable {request : CalculationRequest} {tree : FileTree} {value : String}

theorem exists_of_run (h : request.run tree = .ok value) :
    request.check = .ok () ∧ ∃ config, tree.config request.config = .ok config ∧
      (request.adjust config).evaluate request.shorthand = .ok value := by
  obtain ⟨⟨⟩, hcheck, h⟩ := exists_of_bind_eq_ok h
  obtain ⟨config, hconfig, hvalue⟩ := exists_of_bind_eq_ok h
  exact ⟨hcheck, config, hconfig, hvalue⟩

/-- Two dashes have no comma between anchors, so they are no shorthand. -/
theorem shorthand_ne_dashes (h : request.run tree = .ok value) : request.shorthand ≠ "--" := by
  obtain ⟨-, config, -, hvalue⟩ := exists_of_run h
  intro hdashes
  rw [hdashes] at hvalue
  exact nomatch hvalue

/-- A configuration that is read has a path with an extension. -/
theorem ofPath?_ne_none (h : request.run tree = .ok value) {path : String}
    (hpath : request.config = some path) : ConfigFormat.ofPath? path ≠ none := by
  obtain ⟨-, config, hconfig, -⟩ := exists_of_run h
  rw [hpath] at hconfig
  change tree.readConfig path = .ok config at hconfig
  intro hnone
  unfold FileTree.readConfig at hconfig
  rw [hnone] at hconfig
  exact nomatch hconfig

theorem isRootSize_of_run (h : request.run tree = .ok value) {size : Binary64}
    (hsize : request.rootSize = some size) : Config.isRootSize size = true := by
  have hcheck := (exists_of_run h).1
  unfold check at hcheck
  rw [hsize] at hcheck
  dsimp only at hcheck
  split at hcheck
  · assumption
  · exact nomatch hcheck

end CalculationRequest

/-! ## §2. Root font sizes begin with no dash. -/

theorem Binary64.isRootSize_finite (rank : Fin rankCount) :
    Config.isRootSize (.finite true rank) = false := by
  have hzero : zero.place? = some 0 := rfl
  have hplace : (finite true rank).place? = some (-(rank.val : Int)) := rfl
  unfold Config.isRootSize lt compares
  rw [hzero, hplace, Bool.and_eq_false_iff]
  exact .inr (decide_eq_false (by omega))

theorem Binary64.isRootSize_ofQuotient (num den : Nat) :
    Config.isRootSize (ofQuotient true num den) = false := by
  unfold ofQuotient
  dsimp only
  split
  · exact isRootSize_finite _
  · rfl

theorem Binary64.isRootSize_ofDecimal (d : Decimal) :
    Config.isRootSize (ofDecimal true d) = false := by
  unfold ofDecimal
  split
  · exact isRootSize_ofQuotient _ _
  · split
    · rfl
    · split
      · exact isRootSize_ofQuotient _ _
      · split
        · exact isRootSize_ofQuotient _ _
        · exact isRootSize_ofQuotient _ _

/-- **A text with a dash in front is no root font size**: what it writes is negative. -/
theorem not_looksLikeSwitch_of_number? {text : String} {size : Binary64}
    (h : number? text = some size) (hsize : Config.isRootSize size = true) :
    ¬ LooksLikeSwitch text := by
  intro hlooks
  obtain ⟨letter, rest, htext⟩ := looksLikeSwitch_iff.1 hlooks
  unfold number? Binary64.ofText? at h
  rw [htext] at h
  have hsign : Sign.split ('-' :: letter :: rest) = (some .minus, letter :: rest) := rfl
  simp only [hsign, decide_true] at h
  split at h
  · obtain rfl := Option.some.inj h
    exact nomatch hsize
  · split at h
    · obtain rfl := Option.some.inj h
      exact nomatch hsize
    · split at h
      · obtain rfl := Option.some.inj h
        exact nomatch (Binary64.isRootSize_ofDecimal _).symm.trans hsize
      · exact nomatch h

/-! ## §3. Values and answers. -/

/-- No value has this letter. -/
theorem CalculationRequest.not_mem_value {request : CalculationRequest} {tree : FileTree}
    {value : String} (h : request.run tree = .ok value) : 'u' ∉ value.toList := by
  obtain ⟨-, config, -, hvalue⟩ := exists_of_run h
  obtain ⟨span, fluid, -, rfl⟩ := Config.exists_value_of_evaluate hvalue
  have hnumber : ¬ IsNumberChar 'u' := by
    unfold IsNumberChar
    decide
  have hframe : ∀ c ∈ FluidValue.frame, c ≠ 'u' := by decide
  intro hmem
  refine FluidValue.forall_mem_text hframe ?_ 'u' hmem rfl
  rintro x - c hc rfl
  rcases Binary64.isNumberChar_or_mem_of_mem_cssText hc with hchar | hword
  · exact hnumber hchar
  · exact absurd hword (by decide)

/-- Every explanation has it. -/
theorem CommandLine.Refusal.mem_answer {refusal : Refusal} {answer : String}
    (h : refusal.answer? = some answer) : 'u' ∈ answer.toList := by
  cases refusal with
  | helpAsked command =>
    cases command with
    | none =>
      obtain rfl := Option.some.inj h
      unfold CommandLine.help
      simp only [String.toList_append, List.mem_append]
      exact .inl (.inl (.inl (.inl (by decide))))
    | some command =>
      obtain rfl := Option.some.inj h
      have hpurpose : 'u' ∈ command.purpose.toList := by
        cases command <;> decide
      unfold Subcommand.help
      simp only [String.toList_append, List.mem_append]
      exact .inl (.inl (.inl (.inl (.inl hpurpose))))
  | versionAsked =>
    obtain rfl := Option.some.inj h
    decide
  | _ => exact nomatch h

/-- **A command line that is refused prints no value.** -/
theorem Program.refusing_ne_printing {value : String} (h : 'u' ∉ value.toList) (tree : FileTree)
    (refusal : Refusal) : refusing tree refusal ≠ printing tree (value ++ "\n") [] := by
  intro heq
  unfold refusing at heq
  split at heq
  · next answer hanswer =>
    have hmem := Refusal.mem_answer hanswer
    have houtput : answer = value ++ "\n" := congrArg Outcome.output heq
    rw [houtput, String.toList_append, List.mem_append] at hmem
    rcases hmem with hmem | hmem
    · exact h hmem
    · exact absurd hmem (by decide)
  · exact nomatch congrArg Outcome.code heq

/-! ## §4. The arguments of a calculation. -/

namespace CommandLine

/-- The switches that give a configuration file and a root font size. -/
def switchesOf (config rootText : Option String) : List (Switch × List String) :=
  (config.map fun path => (Switch.config, [path])).toList ++
    (rootText.map fun text => (Switch.rootSize, [text])).toList

/-- The parts give a configuration file and a root font size, each if there is one:
in any order, and by the name or the letter of the switch. -/
structure Gives (config rootText : Option String) (parts : List Part) : Prop where
  given_perm : (Part.given parts).Perm (switchesOf config rootText)
  isSpelled : ∀ part ∈ parts, part.IsSpelled .calculate

variable {config rootText environment : Option String} {arguments : Arguments}
  {words : List String} {parts : List Part}

theorem eq_of_perm_toList {o : Option String} {l : List String} (h : l.Perm o.toList) :
    l.head? = o := by
  cases o with
  | none =>
    obtain rfl := List.perm_nil.1 h
    rfl
  | some text =>
    obtain rfl := List.perm_singleton.1 h
    rfl

/-- Each switch has its value, wherever it stands. -/
theorem value?_of_perm (h : arguments.given.Perm (switchesOf config rootText)) :
    arguments.value? .config = config ∧ arguments.value? .rootSize = rootText := by
  constructor
  · apply eq_of_perm_toList
    refine (h.flatMap_right _).trans (List.Perm.of_eq ?_)
    cases config <;> cases rootText <;> rfl
  · apply eq_of_perm_toList
    refine (h.flatMap_right _).trans (List.Perm.of_eq ?_)
    cases config <;> cases rootText <;> rfl

theorem has_rootSize_of_perm (h : arguments.given.Perm (switchesOf config rootText)) :
    arguments.has .rootSize = rootText.isSome := by
  refine h.any_eq.trans ?_
  cases config <;> cases rootText <;> rfl

/-- A switch that is not among the arguments gets the value that it has without being
given. -/
def fill (fallback : Switch → Option String) (arguments : Arguments) (switch : Switch) :
    Except Refusal Arguments :=
  match fallback switch with
  | some value => if arguments.has switch then .ok arguments else arguments.add switch [value]
  | none => .ok arguments

theorem read_eq (command : Subcommand) (fallback : Switch → Option String) (words : List String) :
    Arguments.read command fallback words =
      (Reading.readAll command .start words).bind fun reading =>
        reading.settle.bind fun settled =>
          (command.switches.foldlM (fill fallback) settled.arguments).bind fun arguments =>
            if (command.takesShorthand ∧ arguments.shorthand = none) ∨
                !(command.required.all arguments.has) then
              throw .missingArgument
            else .ok arguments := rfl

/-- The root font size of the environment holds where none is given. -/
theorem exists_fill_eq (hperm : arguments.given.Perm (switchesOf config rootText))
    (hroot : ∀ text ∈ rootText.or environment, (number? text).isSome = true) :
    ∃ read, fill (Program.fallback environment) arguments .rootSize = .ok read ∧
      read.shorthand = arguments.shorthand ∧
      read.given.Perm (switchesOf config (rootText.or environment)) := by
  have hhas := has_rootSize_of_perm hperm
  cases rootText with
  | some text =>
    refine ⟨arguments, ?_, rfl, hperm⟩
    unfold fill
    rw [hhas]
    cases environment <;> rfl
  | none =>
    cases environment with
    | none => exact ⟨arguments, rfl, rfl, hperm⟩
    | some text =>
      have hcheck : Switch.rootSize.kind.check [text] = .ok () := by
        change ((if (number? text).isSome then Except.ok () else .error Refusal.badValue).bind _) = _
        rw [if_pos (hroot text rfl)]
        rfl
      refine ⟨{ arguments with given := arguments.given ++ [(.rootSize, [text])] }, ?_, rfl, ?_⟩
      · unfold fill
        rw [hhas]
        exact Reading.add_of_single rfl hcheck hhas
      · refine (hperm.append_right _).trans (List.Perm.of_eq ?_)
        cases config <;> rfl

/-- **What is read comes to the arguments**. -/
theorem exists_read_eq {reading : Reading} {word : String}
    (hread : Reading.readAll .calculate .start words = .ok reading)
    (hrests : reading.Rests arguments) (hword : arguments.shorthand = some word)
    (hperm : arguments.given.Perm (switchesOf config rootText))
    (hroot : ∀ text ∈ rootText.or environment, (number? text).isSome = true) :
    ∃ read, Arguments.read .calculate (Program.fallback environment) words = .ok read ∧
      read.shorthand = some word ∧
      read.given.Perm (switchesOf config (rootText.or environment)) := by
  obtain ⟨read, hfill, hsame, hgiven⟩ := exists_fill_eq hperm hroot
  have hnone : read.shorthand = some word := hsame.trans hword
  have hfold : Subcommand.calculate.switches.foldlM (fill (Program.fallback environment))
      arguments = .ok read := by
    change (fill (Program.fallback environment) arguments .rootSize).bind _ = _
    rw [hfill]
    rfl
  refine ⟨read, ?_, hnone, hgiven⟩
  rw [read_eq, hread]
  change reading.settle.bind _ = _
  rw [hrests.settle_eq]
  change (Subcommand.calculate.switches.foldlM (fill (Program.fallback environment))
    arguments).bind _ = _
  rw [hfold]
  refine if_neg ?_
  rintro (⟨-, hmissing⟩ | hrequired)
  · rw [hnone] at hmissing
    exact nomatch hmissing
  · exact nomatch hrequired

theorem shorthand_of_fill {fallback : Switch → Option String} {switches : List Switch}
    {read : Arguments} (h : switches.foldlM (fill fallback) arguments = .ok read) :
    read.shorthand = arguments.shorthand := by
  induction switches generalizing arguments with
  | nil =>
    obtain rfl := Except.ok.inj h
    rfl
  | cons switch switches ih =>
    rw [List.foldlM_cons] at h
    obtain ⟨middle, hmiddle, h⟩ := exists_of_bind_eq_ok h
    rw [ih h]
    unfold fill at hmiddle
    split at hmiddle
    · split at hmiddle
      · obtain rfl := Except.ok.inj hmiddle
        rfl
      · exact Reading.shorthand_of_add hmiddle
    · obtain rfl := Except.ok.inj hmiddle
      rfl

/-- What is not refused has a word. -/
theorem exists_of_read {command : Subcommand} {fallback : Switch → Option String}
    {read : Arguments} (hcommand : command.takesShorthand = true)
    (h : Arguments.read command fallback words = .ok read) :
    ∃ reading, Reading.readAll command .start words = .ok reading ∧
      reading.arguments.shorthand ≠ none := by
  rw [read_eq] at h
  obtain ⟨reading, hreading, h⟩ := exists_of_bind_eq_ok h
  obtain ⟨settled, hsettle, h⟩ := exists_of_bind_eq_ok h
  obtain ⟨arguments, hfill, h⟩ := exists_of_bind_eq_ok h
  refine ⟨reading, hreading, ?_⟩
  rw [← Reading.shorthand_of_settle hsettle, ← shorthand_of_fill hfill]
  intro hnone
  rw [if_pos (.inl ⟨hcommand, hnone⟩)] at h
  exact throw_ne_ok h

theorem mem_switchesOf_iff {switch : Switch} {value : String} :
    (switch, [value]) ∈ switchesOf config rootText ↔
      (switch = .config ∧ config = some value) ∨ (switch = .rootSize ∧ rootText = some value) := by
  unfold switchesOf
  rw [List.mem_append, Option.mem_toList, Option.mem_toList, Option.map_eq_some_iff,
    Option.map_eq_some_iff]
  simp only [Prod.mk.injEq, List.cons.injEq, and_true]
  constructor
  · rintro (⟨path, hconfig, hswitch, rfl⟩ | ⟨text, hroot, hswitch, rfl⟩)
    · exact .inl ⟨hswitch.symm, hconfig⟩
    · exact .inr ⟨hswitch.symm, hroot⟩
  · rintro (⟨hswitch, hconfig⟩ | ⟨hswitch, hroot⟩)
    · exact .inl ⟨value, hconfig, hswitch.symm, rfl⟩
    · exact .inr ⟨value, hroot, hswitch.symm, rfl⟩

end CommandLine

/-! ## §5. What the command line prints. -/

/-- **The value is printed on a line of its own exactly under a condition**, and the
command line is refused otherwise. -/
structure Program.PrintsIff (tree : FileTree) (value : String) (condition : Prop)
    (outcome : Outcome) : Prop where
  eq_printing_iff : outcome = printing tree (value ++ "\n") [] ↔ condition
  refused : ¬ condition → ∃ refusal, outcome = refusing tree refusal

namespace CalculationRequest

variable {request : CalculationRequest} {tree : FileTree} {value : String}
  {rootText environment : Option String} {parts : List Part} {words : List String}

/-- The root font size is what the text behind its switch says, or what the environment
says where there is none. -/
def IsRootText (request : CalculationRequest) (rootText environment : Option String) : Prop :=
  (rootText.or environment).map number? = request.rootSize.map some

theorem exists_of_isRootText (h : request.IsRootText rootText environment) {text : String}
    (htext : rootText.or environment = some text) :
    ∃ size, number? text = some size ∧ request.rootSize = some size := by
  unfold IsRootText at h
  rw [htext] at h
  cases hsize : request.rootSize with
  | none =>
    rw [hsize] at h
    exact nomatch h
  | some size =>
    rw [hsize] at h
    exact ⟨size, Option.some.inj h, rfl⟩

theorem bind_number?_eq (h : request.IsRootText rootText environment) :
    (rootText.or environment).bind number? = request.rootSize := by
  cases htext : rootText.or environment with
  | none =>
    unfold IsRootText at h
    rw [htext] at h
    cases hsize : request.rootSize with
    | none => rfl
    | some size =>
      rw [hsize] at h
      exact nomatch h
  | some text =>
    obtain ⟨size, hnumber, hsize⟩ := exists_of_isRootText h htext
    rw [hsize]
    exact hnumber

/-- Arguments that say what the request says make it. -/
theorem run_of_read (accepted : request.run tree = .ok value)
    (root : request.IsRootText rootText environment) {read : Arguments}
    (hread : Arguments.read .calculate (Program.fallback environment) words = .ok read)
    (hword : read.shorthand = some request.shorthand)
    (hgiven : read.given.Perm (switchesOf request.config (rootText.or environment)))
    (input : Bytes) :
    Program.run (Subcommand.calculate.name :: words) environment tree input =
      Program.printing tree (value ++ "\n") [] := by
  have hcommand : read.toCommand .calculate = .calculate request := by
    obtain ⟨hconfig, hroot⟩ := value?_of_perm hgiven
    unfold Arguments.toCommand
    dsimp only
    rw [hword, hconfig, hroot, bind_number?_eq root]
    rfl
  have hline : Command.read (Program.fallback environment)
      (Subcommand.calculate.name :: words) = .ok (.calculate request) := by
    change (Arguments.read .calculate (Program.fallback environment) words).bind _ = _
    rw [hread]
    exact congrArg Except.ok hcommand
  unfold Program.run
  rw [hline]
  change Program.calculate tree request = _
  unfold Program.calculate
  rw [accepted]

/-- Arguments that are not read make a command line that is refused. -/
theorem exists_refusing_of_read
    (h : ∀ read, Arguments.read .calculate (Program.fallback environment) words ≠ .ok read)
    (tree : FileTree) (input : Bytes) :
    ∃ refusal, Program.run (Subcommand.calculate.name :: words) environment tree input =
      Program.refusing tree refusal := by
  cases hread : Arguments.read .calculate (Program.fallback environment) words with
  | ok read => exact absurd hread (h read)
  | error refusal =>
    refine ⟨refusal, ?_⟩
    have hline : Command.read (Program.fallback environment)
        (Subcommand.calculate.name :: words) = .error refusal := by
      change (Arguments.read .calculate (Program.fallback environment) words).bind _ = _
      rw [hread]
      rfl
    unfold Program.run
    rw [hline]

/-- No part of the command line ends in two dashes. -/
theorem value_ne_dashes (accepted : request.run tree = .ok value)
    (root : request.IsRootText rootText environment) (gives : Gives request.config rootText parts)
    (htexts : ∀ text ∈ Part.texts parts, text = request.shorthand) :
    ∀ part ∈ parts, part.value ≠ "--" := by
  intro part hpart
  cases part with
  | word text =>
    change text ≠ "--"
    rw [htexts text (Part.mem_texts hpart)]
    exact shorthand_ne_dashes accepted
  | valued switch spelling value =>
    have hgiven := gives.given_perm.mem_iff.1 (Part.mem_given_iff.2 ⟨spelling, hpart⟩)
    rintro hdashes
    obtain rfl : value = "--" := hdashes
    rcases mem_switchesOf_iff.1 hgiven with ⟨-, hconfig⟩ | ⟨-, rfl⟩
    · exact ofPath?_ne_none accepted hconfig (by decide)
    · obtain ⟨size, hnumber, -⟩ := exists_of_isRootText root rfl
      exact nomatch hnumber

/-- **Its parts are plain** unless the path or a word is taken for a switch. -/
theorem isPlain_of_not (accepted : request.run tree = .ok value)
    (root : request.IsRootText rootText environment) (gives : Gives request.config rootText parts)
    (htexts : ∀ text ∈ Part.texts parts, ¬ LooksLikeSwitch text)
    (hconfig : ∀ path ∈ request.config, ¬ LooksLikeSwitch path) :
    ∀ part ∈ parts, part.IsPlain := by
  intro part hpart
  cases part with
  | word text => exact htexts text (Part.mem_texts hpart)
  | valued switch spelling value =>
    have hgiven := gives.given_perm.mem_iff.1 (Part.mem_given_iff.2 ⟨spelling, hpart⟩)
    rcases mem_switchesOf_iff.1 hgiven with ⟨rfl, hpath⟩ | ⟨rfl, rfl⟩
    · refine ⟨hconfig value hpath, ?_⟩
      have hne : value ≠ "" := by
        rintro rfl
        exact ofPath?_ne_none accepted hpath (by decide)
      change ((if value = "" then Except.error Refusal.missingValue else .ok ()).bind _) = _
      rw [if_neg hne]
      rfl
    · obtain ⟨size, hnumber, hsize⟩ := exists_of_isRootText root rfl
      refine ⟨not_looksLikeSwitch_of_number? hnumber (isRootSize_of_run accepted hsize), ?_⟩
      change ((if (number? value).isSome then Except.ok () else .error Refusal.badValue).bind _) = _
      rw [hnumber]
      rfl

/-- A path that is taken for a switch is behind its switch in some part. -/
theorem readAll_ne_ok_of_config (accepted : request.run tree = .ok value)
    (root : request.IsRootText rootText environment) (gives : Gives request.config rootText parts)
    (htexts : ∀ text ∈ Part.texts parts, text = request.shorthand)
    (hconfig : ¬ ∀ path ∈ request.config, ¬ LooksLikeSwitch path) (reading after : Reading) :
    Reading.readAll .calculate reading (parts.flatMap Part.words) ≠ .ok after := by
  simp only [not_forall, not_not] at hconfig
  obtain ⟨path, hpath, hlooks⟩ := hconfig
  have hgiven : (Switch.config, [path]) ∈ Part.given parts :=
    gives.given_perm.mem_iff.2 (mem_switchesOf_iff.2 (.inl ⟨rfl, hpath⟩))
  obtain ⟨spelling, hpart⟩ := Part.mem_given_iff.1 hgiven
  exact Reading.readAll_ne_ok_of_valued gives.isSpelled
    (value_ne_dashes accepted root gives htexts) hpart hlooks

/-- The parts of an accepted calculation are read as the switches that they give. -/
theorem exists_readAll_eq (accepted : request.run tree = .ok value)
    (root : request.IsRootText rootText environment) (gives : Gives request.config rootText parts)
    (htexts : ∀ text ∈ Part.texts parts, ¬ LooksLikeSwitch text)
    (hlength : (Part.texts parts).length ≤ 1)
    (hconfig : ∀ path ∈ request.config, ¬ LooksLikeSwitch path) :
    ∃ reading, Reading.readAll .calculate .start (parts.flatMap Part.words) = .ok reading ∧
      reading.Rests ⟨Part.given parts, (Part.texts parts).head?⟩ := by
  have hswitches : ((Part.given parts).map Prod.fst).Nodup := by
    refine (gives.given_perm.map _).nodup_iff.2 ?_
    cases request.config with
    | none =>
      cases rootText with
      | none => exact (by decide : ([] : List Switch).Nodup)
      | some text => exact (by decide : [Switch.rootSize].Nodup)
    | some path =>
      cases rootText with
      | none => exact (by decide : [Switch.config].Nodup)
      | some text => exact (by decide : [Switch.config, Switch.rootSize].Nodup)
  exact Reading.exists_readAll_of_isPlain rfl gives.isSpelled
    (isPlain_of_not accepted root gives htexts hconfig) (Reading.rests_settled _) hlength hswitches

/-- What a command line prints, by whether its arguments are read. -/
theorem printsIff_of_read (accepted : request.run tree = .ok value)
    (root : request.IsRootText rootText environment) {condition : Prop}
    (hread : condition → ∃ reading given,
      Reading.readAll .calculate .start words = .ok reading ∧
        reading.Rests ⟨given, some request.shorthand⟩ ∧
        given.Perm (switchesOf request.config rootText))
    (hrefused : ¬ condition → ∀ read,
      Arguments.read .calculate (Program.fallback environment) words ≠ .ok read)
    (input : Bytes) :
    Program.PrintsIff tree value condition
      (Program.run (Subcommand.calculate.name :: words) environment tree input) := by
  have hnumber : ∀ text ∈ rootText.or environment, (number? text).isSome = true := by
    intro text htext
    obtain ⟨size, hsize, -⟩ := exists_of_isRootText root htext
    rw [hsize]
    rfl
  refine ⟨⟨?_, ?_⟩, fun hnot => exists_refusing_of_read (hrefused hnot) tree input⟩
  · intro hprinting
    by_contra hnot
    obtain ⟨refusal, hrefusing⟩ := exists_refusing_of_read (hrefused hnot) tree input
    exact Program.refusing_ne_printing (not_mem_value accepted) tree refusal
      (hrefusing.symm.trans hprinting)
  · intro hcondition
    obtain ⟨reading, given, hreading, hrests, hgiven⟩ := hread hcondition
    obtain ⟨read, hread, hword, hperm⟩ := exists_read_eq hreading hrests rfl hgiven hnumber
    exact run_of_read accepted root hread hword hperm input

/-- **The command line of an accepted calculation** prints its value exactly if neither
the shorthand nor the path of the configuration file is taken for a switch; behind two
dashes every shorthand will do.  The other parts stand in any order. -/
theorem command_line_prints_iff (accepted : request.run tree = .ok value)
    (root : request.IsRootText rootText environment) (gives : Gives request.config rootText parts)
    (input : Bytes) :
    let line words := Program.run (Subcommand.calculate.name :: words) environment tree input
    (Part.texts parts = [request.shorthand] →
      Program.PrintsIff tree value
        (¬ LooksLikeSwitch request.shorthand ∧ ∀ path ∈ request.config, ¬ LooksLikeSwitch path)
        (line (parts.flatMap Part.words))) ∧
    (Part.texts parts = [] →
      Program.PrintsIff tree value (∀ path ∈ request.config, ¬ LooksLikeSwitch path)
        (line (parts.flatMap Part.words ++ ["--", request.shorthand]))) := by
  refine ⟨fun htexts => ?_, fun htexts => ?_⟩
  · have hshorthand : ∀ text ∈ Part.texts parts, text = request.shorthand := by
      rw [htexts]
      exact fun text hmem => List.mem_singleton.1 hmem
    refine printsIff_of_read accepted root ?_ ?_ input
    · intro hcondition
      obtain ⟨hplain, hconfig⟩ := hcondition
      obtain ⟨reading, hreading, hrests⟩ := exists_readAll_eq accepted root gives
        (fun text hmem => hshorthand text hmem ▸ hplain) (by rw [htexts]; rfl) hconfig
      rw [htexts] at hrests
      exact ⟨reading, Part.given parts, hreading, hrests, gives.given_perm⟩
    · intro hnot read hread
      obtain ⟨reading, hreading, hword⟩ := exists_of_read rfl hread
      by_cases hconfig : ∀ path ∈ request.config, ¬ LooksLikeSwitch path
      · have hlooks : LooksLikeSwitch request.shorthand := by
          by_contra hplain
          exact hnot ⟨hplain, hconfig⟩
        -- the shorthand was read as switches, so there is none
        refine hword (Reading.shorthand_of_readAll gives.isSpelled
          (value_ne_dashes accepted root gives hshorthand) ?_ hreading)
        exact fun text hmem => hshorthand text hmem ▸ hlooks
      · exact readAll_ne_ok_of_config accepted root gives hshorthand hconfig _ _ hreading
  · have hshorthand : ∀ text ∈ Part.texts parts, text = request.shorthand := by
      rw [htexts]
      exact fun text hmem => nomatch hmem
    have hwords : "--" ∉ parts.flatMap Part.words := by
      intro hmem
      obtain ⟨part, hpart, hmem⟩ := List.mem_flatMap.1 hmem
      exact Reading.not_mem_words (gives.isSpelled part hpart)
        (value_ne_dashes accepted root gives hshorthand part hpart) hmem
    refine printsIff_of_read accepted root ?_ ?_ input
    · intro hconfig
      obtain ⟨reading, hreading, hrests⟩ := exists_readAll_eq accepted root gives
        (by rw [htexts]; exact fun text hmem => nomatch hmem) (by rw [htexts]; decide) hconfig
      rw [htexts] at hrests
      refine ⟨_, Part.given parts, ?_, Reading.rests_settled _, gives.given_perm⟩
      rw [Reading.readAll_append hwords, hreading]
      exact Reading.readAll_dashes rfl hrests rfl request.shorthand
    · intro hnot read hread
      obtain ⟨reading, hreading, -⟩ := exists_of_read rfl hread
      rw [Reading.readAll_append hwords] at hreading
      obtain ⟨middle, hmiddle, -⟩ := exists_of_bind_eq_ok hreading
      exact readAll_ne_ok_of_config accepted root gives hshorthand hnot _ _ hmiddle

/-- A negative size, with the root font size in front of the configuration file: the
shorthand is refused as it stands, and its value is printed behind two dashes. -/
theorem command_line_prints_iff_negative :
    let request : CalculationRequest := ⟨"-1px,2px", some "c.json", some (.ofNat 16)⟩
    let content :=
      r#"{"screens":{"DEFAULT_FROM":"768px","DEFAULT_TO":"1280px"}}"#
    let tree := FileTree.empty.put ["c.json"] (.file (Bytes.ofText content))
    let value := "clamp(-1px, 0.58594vw - 5.5px, 2px)"
    let switches := ["--root-font-size", "16", "-c", "c.json"]
    request.run tree = .ok value ∧
      (∃ refusal, Program.run ("calc" :: switches ++ ["-1px,2px"]) none tree [] =
        Program.refusing tree refusal) ∧
      Program.run ("calc" :: switches ++ ["-1px,2px"]) none tree [] ≠
        Program.printing tree (value ++ "\n") [] ∧
      Program.run ("calc" :: switches ++ ["--", "-1px,2px"]) none tree [] =
        Program.printing tree (value ++ "\n") [] := by
  intro request content tree value switches
  have accepted : request.run tree = .ok value := by decide +kernel
  have root : request.IsRootText (some "16") none := by
    unfold IsRootText
    decide +kernel
  let given : List Part :=
    [.valued .rootSize "--root-font-size" "16", .valued .config "-c" "c.json"]
  have hletter : IsSpelling .config ("-" ++ String.singleton 'c') := .letter rfl
  have hspelled : ∀ part ∈ given, part.IsSpelled .calculate := by
    intro part hpart
    rcases List.mem_cons.1 hpart with rfl | hpart
    · exact ⟨by decide, ⟨_, rfl⟩, .name .rootSize⟩
    · obtain rfl := List.mem_singleton.1 hpart
      exact ⟨by decide, ⟨_, rfl⟩, hletter⟩
  have hgiven : Gives request.config (some "16") given := ⟨List.Perm.swap _ _ _, hspelled⟩
  have hword : Gives request.config (some "16") (given ++ [.word "-1px,2px"]) := by
    refine ⟨List.Perm.swap _ _ _, ?_⟩
    intro part hpart
    rcases List.mem_append.1 hpart with hpart | hpart
    · exact hspelled part hpart
    · obtain rfl := List.mem_singleton.1 hpart
      trivial
  have hplain := (command_line_prints_iff accepted root hword []).1 rfl
  have hdashes := (command_line_prints_iff accepted root hgiven []).2 rfl
  have hlooks : LooksLikeSwitch request.shorthand := by decide
  have hpath : ∀ path ∈ request.config, ¬ LooksLikeSwitch path := by
    intro path hpath
    obtain rfl := Option.some.inj hpath
    decide
  have hnot : ¬ (¬ LooksLikeSwitch request.shorthand ∧
      ∀ path ∈ request.config, ¬ LooksLikeSwitch path) := fun h => h.1 hlooks
  exact ⟨accepted, hplain.refused hnot, fun heq => hnot (hplain.eq_printing_iff.1 heq),
    hdashes.eq_printing_iff.2 hpath⟩

end CalculationRequest

end FluidClamp
