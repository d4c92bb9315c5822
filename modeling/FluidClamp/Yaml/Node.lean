/-
  FluidClamp.Yaml.Node
  ────────────────────
  **THE NODES OF A YAML DOCUMENT.**

  The tokens of a text make up one document, and a document is one node.  Where an
  alias stands, the node of its anchor is put in (`Node.shared`); an alias inside
  the node of its own anchor has none (`Node.loop`).

  Every beginning of a node, every end of a collection and every alias is an
  event; their number says how long a document is.

  The grammar is that of libyaml's parser, and the events are those that `serde_yaml`
  0.9 counts.  A text has one document; a second one is refused, and so is an alias
  without an anchor.  Tags are resolved by the directives of the document.
-/
import FluidClamp.Yaml.Token

namespace FluidClamp.Yaml

/-! ## §1. Nodes. -/

/-- A node. -/
inductive Node where
  | scalar (style : ScalarStyle) (tag : Option (List Char)) (text : List Char)
  | sequence (tag : Option (List Char)) (items : List Node)
  | mapping (tag : Option (List Char)) (entries : List (Node × Node))
  /-- The node of an anchor, where an alias stands. -/
  | shared (node : Node)
  /-- An alias inside the node of its anchor. -/
  | loop

/-- What an anchor names. -/
inductive Anchored where
  /-- A node that is still being built; the number tells it from others. -/
  | unfinished (event : Nat)
  | finished (node : Node)

/-! ## §2. Building. -/

/-- What is known while nodes are built. -/
structure Building where
  /-- The tokens that are left. -/
  tokens : List Token
  /-- The anchors so far, the last one first. -/
  anchors : List (List Char × Anchored)
  /-- What the handles of tags stand for. -/
  handles : List (List Char × List Char)
  /-- How many events there were. -/
  events : Nat

/-- A step of building, which may fail. -/
abbrev Build := StateT Building Option

namespace Build

/-- The next token. -/
def peek : Build (Option Token) := return (← get).tokens.head?

/-- Go behind the next token. -/
def skip : Build Unit := modify fun building => { building with tokens := building.tokens.tail }

/-- Go behind the next token if it is the given one. -/
def skipIf (token : Token) : Build Bool := do
  if (← peek) = some token then
    skip
    return true
  else return false

/-- The next token has to be the given one. -/
def expect (token : Token) : Build Unit := do
  if ← skipIf token then return else failure

/-- One more event; the number of those before it. -/
def event : Build Nat :=
  modifyGet fun building => (building.events, { building with events := building.events + 1 })

/-- A node without any text. -/
def empty : Build Node := do
  let _ ← event
  return .scalar .plain none []

/-- A node, or an empty one if one of some tokens comes next. -/
def orEmpty (stops : List Token) (node : Build Node) : Build Node := do
  match ← peek with
  | some token => if stops.contains token then empty else node
  | none => node

/-! ## §3. Anchors and tags. -/

/-- The node that an alias repeats. -/
def repeated (name : List Char) : Build Node := do
  let _ ← event
  match (← get).anchors.find? fun anchor => decide (anchor.1 = name) with
  | some (_, .finished node) => return .shared node
  | some (_, .unfinished _) => return .loop
  | none => failure

/-- Build a node under its anchor. -/
def anchored (name : Option (List Char)) (node : Build Node) : Build Node := do
  let event ← event
  match name with
  | none => node
  | some name =>
      modify fun building =>
        { building with anchors := (name, .unfinished event) :: building.anchors }
      let node ← node
      let finish : List Char × Anchored → List Char × Anchored
        | (name, .unfinished other) =>
            (name, if other = event then .finished node else .unfinished other)
        | anchor => anchor
      modify fun building => { building with anchors := building.anchors.map finish }
      return node

/-- The anchor that comes next, if there is one. -/
def takeAnchor : Build (Option (List Char)) := do
  match ← peek with
  | some (.anchor name) =>
      skip
      return some name
  | _ => return none

/-- The tag that comes next, if there is one, with what its handle stands for. -/
def takeTag : Build (Option (List Char)) := do
  match ← peek with
  | some (.tag handle suffix) =>
      skip
      if handle = [] then return some suffix
      else
        match (← get).handles.find? fun known => decide (known.1 = handle) with
        | some (_, start) => return some (start ++ suffix)
        | none => failure
  | _ => return none

/-- The anchor and the tag of a node, in any order. -/
def takeProperties : Build (Option (List Char) × Option (List Char)) := do
  let anchor ← takeAnchor
  let tag ← takeTag
  match anchor with
  | some _ => return (anchor, tag)
  | none => return (← takeAnchor, tag)

/-! ## §4. Nodes. -/

mutual

/-- A node; a sequence that is not indented may only stand in a mapping.  Every
level and every item takes from the fuel. -/
def node (inMapping : Bool) : Nat → Build Node
  | 0 => failure
  | fuel + 1 => do
      match ← peek with
      | some (.alias name) =>
          skip
          repeated name
      | _ =>
          let (name, tag) ← takeProperties
          match ← peek with
          | some (.scalar style text) =>
              anchored name do
                skip
                return .scalar style (if tag = some ['!'] then none else tag) text
          | some .flowSequenceStart =>
              anchored name do
                skip
                return .sequence tag (← flowItems true fuel)
          | some .flowMappingStart =>
              anchored name do
                skip
                return .mapping tag (← flowEntries true fuel)
          | some .blockSequenceStart =>
              anchored name do
                skip
                return .sequence tag (← blockItems fuel)
          | some .blockMappingStart =>
              anchored name do
                skip
                return .mapping tag (← blockEntries fuel)
          | next =>
              if inMapping ∧ next = some .blockEntry then
                anchored name do
                  return .sequence tag (← unindentedItems fuel)
              else if name.isSome ∨ tag.isSome then
                anchored name do
                  return .scalar .plain tag []
              else failure

/-- The items of a sequence with dashes, up to its end. -/
def blockItems : Nat → Build (List Node)
  | 0 => failure
  | fuel + 1 => do
      if ← skipIf .blockEntry then
        let item ← orEmpty [.blockEntry, .blockEnd] (node false fuel)
        return item :: (← blockItems fuel)
      else
        expect .blockEnd
        let _ ← event
        return []

/-- The items of a sequence whose dashes stand under the key: it ends with them. -/
def unindentedItems : Nat → Build (List Node)
  | 0 => failure
  | fuel + 1 => do
      if ← skipIf .blockEntry then
        let item ← orEmpty [.blockEntry, .key, .value, .blockEnd] (node false fuel)
        return item :: (← unindentedItems fuel)
      else
        let _ ← event
        return []

/-- The keys and values of a mapping without brackets, up to its end. -/
def blockEntries : Nat → Build (List (Node × Node))
  | 0 => failure
  | fuel + 1 => do
      if ← skipIf .key then
        let stops : List Token := [.key, .value, .blockEnd]
        let key ← orEmpty stops (node true fuel)
        let value ← if ← skipIf .value then orEmpty stops (node true fuel) else empty
        return (key, value) :: (← blockEntries fuel)
      else
        expect .blockEnd
        let _ ← event
        return []

/-- The items of a sequence in brackets, up to the closing one.  A key among them
makes a mapping of one entry; where it is empty, the token behind it is lost. -/
def flowItems (first : Bool) : Nat → Build (List Node)
  | 0 => failure
  | fuel + 1 => do
      if ← skipIf .flowSequenceEnd then
        let _ ← event
        return []
      else
        if !first then expect .flowEntry
        if ← skipIf .flowSequenceEnd then
          let _ ← event
          return []
        else if ← skipIf .key then
          let pair ← anchored none do
            let next ← peek
            let key ←
              if next = some .value ∨ next = some .flowEntry ∨ next = some .flowSequenceEnd then do
                skip
                empty
              else node false fuel
            let value ←
              if ← skipIf .value then orEmpty [.flowEntry, .flowSequenceEnd] (node false fuel)
              else empty
            let _ ← event
            return .mapping none [(key, value)]
          return pair :: (← flowItems false fuel)
        else
          let item ← node false fuel
          return item :: (← flowItems false fuel)

/-- The keys and values of a mapping in brackets, up to the closing one. -/
def flowEntries (first : Bool) : Nat → Build (List (Node × Node))
  | 0 => failure
  | fuel + 1 => do
      if ← skipIf .flowMappingEnd then
        let _ ← event
        return []
      else
        if !first then expect .flowEntry
        if ← skipIf .flowMappingEnd then
          let _ ← event
          return []
        else if ← skipIf .key then
          let key ← orEmpty [.value, .flowEntry, .flowMappingEnd] (node false fuel)
          let value ←
            if ← skipIf .value then orEmpty [.flowEntry, .flowMappingEnd] (node false fuel)
            else empty
          return (key, value) :: (← flowEntries false fuel)
        else
          let key ← node false fuel
          let value ← empty
          return (key, value) :: (← flowEntries false fuel)

end

/-! ## §5. Documents. -/

/-- The handles that need no directive. -/
def commonHandles : List (List Char × List Char) :=
  [("!".toList, "!".toList), ("!!".toList, "tag:yaml.org,2002:".toList)]

/-- The directives in front of a document, each at most once. -/
def directives (versioned : Bool) : Nat → Build Unit
  | 0 => failure
  | fuel + 1 => do
      match ← peek with
      | some (.version major minor) =>
          if versioned ∨ major ≠ 1 ∨ (minor ≠ 1 ∧ minor ≠ 2) then failure
          else
            skip
            directives true fuel
      | some (.tagHandle handle start) =>
          if (← get).handles.any fun known => decide (known.1 = handle) then failure
          else
            skip
            modify fun building => { building with handles := (handle, start) :: building.handles }
            directives versioned fuel
      | _ => return

/-- The document of the tokens; nothing if there are none. -/
def document (fuel : Nat) : Build (Option Node) := do
  let addCommon : Build Unit :=
    modify fun building => { building with handles := building.handles ++ commonHandles }
  match ← peek with
  | none => return none
  | some (.version ..) | some (.tagHandle ..) | some .documentStart =>
      directives false fuel
      addCommon
      expect .documentStart
      match ← peek with
      | none | some (.version ..) | some (.tagHandle ..) | some .documentStart
      | some .documentEnd => return some (← empty)
      | _ => return some (← node false fuel)
  | some _ =>
      addCommon
      return some (← node false fuel)

end Build

/-- A document with its length. -/
structure Document where
  /-- The node; there is none in a text without tokens. -/
  root : Option Node
  events : Nat

/-- **The document of a text.**  There is at most one, and behind it only markers
of its end. -/
def Document.ofText? (text : String) : Option Document := do
  let tokens ← Token.ofText? text
  let (root, building) ← (Build.document (2 * tokens.length + 4)).run ⟨tokens, [], [], 0⟩
  if building.tokens.all fun token => decide (token = .documentEnd) then
    return ⟨root, building.events⟩
  else none

end FluidClamp.Yaml
