import EmberAssist.Yaml.Graph
import EmberAssist.Yaml.Lexer

/-! The nodes that tokens describe. The functions that read a construct take the tokens at which it
begins and give its node with the tokens behind it. The number they take first bounds the depth of the
descent and its length. -/
namespace EmberAssist.Yaml

/-- What is known while nodes are read: the tokens that are left, what is wrong behind them, the nodes
read so far, the names of some of them, and what the handles of tags stand for. -/
structure Composer where
  tokens : List Token
  fault : Option Data.DocumentFault
  cells : Array Cell
  anchors : List (List Char × Nat)
  handles : List (List Char × List Char)

/-- A step of reading nodes. -/
abbrev Compose := StateT Composer (Except Data.DocumentFault)

namespace Compose

/-- The text cannot be read on. -/
def fail {α : Type} : Compose α := throw .malformed

/-- The next token. None is left at the end of the text; a fault of the text shows when it is
reached. -/
def peek : Compose (Option Token) := do
  let state ← get
  match state.tokens, state.fault with
  | token :: _, _ => return some token
  | [], none => return none
  | [], some fault => throw fault

/-- Drops the next token. -/
def advance : Compose Unit := modify fun state => { state with tokens := state.tokens.drop 1 }

/-- Whether the next token is a given one. -/
def sees (token : Token) : Compose Bool := do return (← peek) == some token

/-- Whether the next token is one of several. -/
def seesAny (tokens : List Token) : Compose Bool := do
  return (← peek).any tokens.contains

/-- Drops the next token if it is a given one, and tells whether it was. -/
def eat (token : Token) : Compose Bool := do
  if ← sees token then
    advance
    return true
  else return false

/-- Adds a node. -/
def add (cell : Cell) : Compose Nat :=
  modifyGet fun state => (state.cells.size, { state with cells := state.cells.push cell })

/-- Puts a node in the place of another. -/
def replace (number : Nat) (cell : Cell) : Compose Unit :=
  modify fun state => { state with cells := state.cells.setIfInBounds number cell }

/-- A node that is not written: the empty scalar. -/
def absent : Compose Nat := add (.scalar (.suggested []) [])

/-- What is written before a node: its name and the name of its tag. -/
structure Properties where
  anchor : Option (List Char)
  tag : Option (List Char)

/-- Whether the tag is left to the text of the node. -/
def Properties.isImplicit (properties : Properties) : Bool :=
  properties.tag.all (· == ['!'])

/-- The tag of a collection whose tag is this one if none is written. -/
def Properties.tagOr (properties : Properties) (usual : Tag) : Tag :=
  if properties.isImplicit then usual else .ofName (properties.tag.getD [])

/-- The tag of a scalar. A text in quotes suggests nothing. -/
def Properties.scalarTag (properties : Properties) (chars : List Char) (plain : Bool) : Tag :=
  if !properties.isImplicit then .ofName (properties.tag.getD [])
  else if plain || properties.tag.isSome then .suggested chars
  else .str

/-- The name of a tag as it is written. -/
def tagName (written : WrittenTag) : Compose (List Char) := do
  match written.handle with
  | none => return written.rest
  | some handle =>
    match (← get).handles.lookup handle with
    | some meaning => return meaning ++ written.rest
    | none => fail

/-- Reads an anchor, if one comes next. -/
def readAnchor : Compose (Option (List Char)) := do
  match ← peek with
  | some (.anchor name) =>
    advance
    return some name
  | _ => return none

/-- Reads a tag, if one comes next. -/
def readTagName : Compose (Option WrittenTag) := do
  match ← peek with
  | some (.tag written) =>
    advance
    return some written
  | _ => return none

/-- Reads anchor and tag of a node, which may stand in either order. -/
def readProperties : Compose Properties := do
  let (anchor, written) ←
    match ← readAnchor with
    | some name => do pure (some name, ← readTagName)
    | none => do
      match ← readTagName with
      | some written => do pure (← readAnchor, some written)
      | none => pure (none, none)
  match written with
  | some written => return ⟨anchor, some (← tagName written)⟩
  | none => return ⟨anchor, none⟩

/-- Gives a node its name. A name can be given only once. -/
def name (anchor : Option (List Char)) (number : Nat) : Compose Unit :=
  match anchor with
  | none => pure ()
  | some anchor => modify fun state => { state with anchors := (anchor, number) :: state.anchors }

/-- Checks that a name has not been given yet. -/
def checkFree (anchor : Option (List Char)) : Compose Unit := do
  match anchor with
  | none => pure ()
  | some anchor => if ((← get).anchors.lookup anchor).isSome then fail

/-- Where a node stands, which decides what it can be. -/
inductive Place where
  | flow
  | block
  | blockOrDashes
deriving DecidableEq

mutual

/-- Reads a node. -/
def readNode (place : Place) : Nat → Compose Nat
  | 0 => fail
  | bound + 1 => do
    match ← peek with
    | some (.alias name) =>
      advance
      match (← get).anchors.lookup name with
      | some number => return number
      | none => fail
    | _ =>
      let properties ← readProperties
      readContent place properties bound

/-- Reads a node behind its properties. -/
def readContent (place : Place) (properties : Properties) : Nat → Compose Nat
  | 0 => fail
  | bound + 1 => do
    let inBlock := place != .flow
    match ← peek with
    | some (.scalar chars plain) =>
      advance
      readScalar properties chars plain
    | some .flowSequence =>
      advance
      readSequence properties (readFlowItems true bound)
    | some .flowMapping =>
      advance
      readMapping properties (readFlowEntries true bound)
    | next =>
      if next == some .blockEntry && place == .blockOrDashes then
        readSequence properties (readDashes bound)
      else if next == some .blockSequence && inBlock then
        advance
        readSequence properties (readBlockItems bound)
      else if next == some .blockMapping && inBlock then
        advance
        readMapping properties (readBlockEntries bound)
      else if properties.anchor.isSome || properties.tag.isSome then
        readScalar properties [] true
      else fail

/-- Makes a scalar. -/
def readScalar (properties : Properties) (chars : List Char) (plain : Bool) : Compose Nat := do
  checkFree properties.anchor
  let number ← add (.scalar (properties.scalarTag chars plain) chars)
  name properties.anchor number
  return number

/-- Reads the items of a sequence, which can stand for the sequence already. -/
def readSequence (properties : Properties) (readItems : Compose (List Nat)) : Compose Nat := do
  checkFree properties.anchor
  let tag := properties.tagOr .seq
  let number ← add (.sequence tag [])
  name properties.anchor number
  replace number (.sequence tag (← readItems))
  return number

/-- Reads the entries of a mapping, which can stand for the mapping already. -/
def readMapping (properties : Properties) (readEntries : Compose (List (Nat × Nat))) :
    Compose Nat := do
  checkFree properties.anchor
  let tag := properties.tagOr .map
  let number ← add (.mapping tag [])
  name properties.anchor number
  replace number (.mapping tag (← readEntries))
  return number

/-- Reads a node, or an absent one if one of several tokens comes next. -/
def readNodeUnless (place : Place) (stops : List Token) : Nat → Compose Nat
  | 0 => fail
  | bound + 1 => do if ← seesAny stops then absent else readNode place bound

/-- Reads the value behind a colon; without a colon it is absent. -/
def readValue (place : Place) (stops : List Token) : Nat → Compose Nat
  | 0 => fail
  | bound + 1 => do if ← eat .value then readNodeUnless place stops bound else absent

/-- Reads the items of a block and its end. -/
def readBlockItems : Nat → Compose (List Nat)
  | 0 => fail
  | bound + 1 => do
    if ← eat .blockEntry then
      let item ← readNodeUnless .block [.blockEntry, .blockEnd] bound
      return item :: (← readBlockItems bound)
    else if ← eat .blockEnd then return []
    else fail

/-- Reads items that are not indented, up to a token that cannot be one. -/
def readDashes : Nat → Compose (List Nat)
  | 0 => fail
  | bound + 1 => do
    if ← eat .blockEntry then
      let item ← readNodeUnless .block [.blockEntry, .key, .value, .blockEnd] bound
      return item :: (← readDashes bound)
    else return []

/-- Reads the entries of a block and its end. -/
def readBlockEntries : Nat → Compose (List (Nat × Nat))
  | 0 => fail
  | bound + 1 => do
    let stops := [.key, .value, .blockEnd]
    if ← eat .key then
      let key ← readNodeUnless .blockOrDashes stops bound
      let value ← readValue .blockOrDashes stops bound
      return (key, value) :: (← readBlockEntries bound)
    else if ← eat .blockEnd then return []
    else fail

/-- Reads the items of a sequence in brackets, and the closing bracket. An item may be a single entry,
which is a mapping of its own. -/
def readFlowItems (isFirst : Bool) : Nat → Compose (List Nat)
  | 0 => fail
  | bound + 1 => do
    if ← eat .flowSequenceEnd then return []
    else
      if !isFirst then
        if !(← eat .flowEntry) then fail
      if ← sees .key then
        let number ← add (.mapping .map [])
        advance
        let key ← readNodeUnless .flow [.value, .flowEntry, .flowSequenceEnd] bound
        let value ← readValue .flow [.flowEntry, .flowSequenceEnd] bound
        replace number (.mapping .map [(key, value)])
        return number :: (← readFlowItems false bound)
      else if ← eat .flowSequenceEnd then return []
      else
        let item ← readNode .flow bound
        return item :: (← readFlowItems false bound)

/-- Reads the entries of a mapping in braces, and the closing brace. -/
def readFlowEntries (isFirst : Bool) : Nat → Compose (List (Nat × Nat))
  | 0 => fail
  | bound + 1 => do
    if ← eat .flowMappingEnd then return []
    else
      if !isFirst then
        if !(← eat .flowEntry) then fail
      if ← eat .key then
        let key ← readNodeUnless .flow [.value, .flowEntry, .flowMappingEnd] bound
        let value ← readValue .flow [.flowEntry, .flowMappingEnd] bound
        return (key, value) :: (← readFlowEntries false bound)
      else if ← eat .flowMappingEnd then return []
      else
        let key ← readNode .flow bound
        let value ← absent
        return (key, value) :: (← readFlowEntries false bound)

end

/-! ## Documents -/

/-- What the handles of tags stand for unless directives say otherwise. -/
def usualHandles : List (List Char × List Char) := [(['!'], ['!']), (['!', '!'], Tag.namePrefix)]

/-- Reads directives. A version and a handle can be declared only once, and the version must be one
that is known. -/
def readDirectives (versionSeen : Bool) (declared : List (List Char × List Char)) :
    Nat → Compose (List (List Char × List Char))
  | 0 => fail
  | bound + 1 => do
    match ← peek with
    | some (.version major) =>
      if versionSeen || major != 1 then fail
      else
        advance
        readDirectives true declared bound
    | some (.tagHandle handle meaning) =>
      if (declared.lookup handle).isSome then fail
      else
        advance
        readDirectives versionSeen ((handle, meaning) :: declared) bound
    | some .otherDirective =>
      advance
      readDirectives versionSeen declared bound
    | _ => return declared

/-- Drops tokens that end a document. -/
def skipEnds : Nat → Compose Unit
  | 0 => fail
  | bound + 1 => do if ← eat .documentEnd then skipEnds bound

/-- Whether a directive comes next. -/
def seesDirective : Compose Bool := do
  match ← peek with
  | some (.version _) | some (.tagHandle ..) | some .otherDirective => return true
  | _ => return false

/-- Reads the document that directives and dashes begin, or nothing at the end of the text. -/
def readMarkedDocument (bound : Nat) : Compose (Option Nat) := do
  if (← peek).isNone then return none
  else
    let declared ← readDirectives false [] bound
    if !(← eat .documentStart) then fail
    else
      modify fun state => { state with handles := declared ++ usualHandles }
      let ends := (← peek).isNone || (← seesDirective) ||
        (← seesAny [.documentStart, .documentEnd])
      if ends then return some (← absent) else return some (← readNode .block bound)

/-- Reads the only document of a text. A text without a document has none. -/
def readDocument (bound : Nat) : Compose (Option Nat) := do
  let isMarked := (← peek).isNone || (← seesDirective) || (← sees .documentStart)
  let root ← if isMarked then readMarkedDocument bound else some <$> readNode .block bound
  match root with
  | none => return none
  | some root =>
    if ← eat .documentEnd then skipEnds bound
    if (← peek).isSome then fail else return some root

end Compose

/-- The nodes of the only document of a text, if it has one. -/
def Graph.ofText? (chars : List Char) : Except Data.DocumentFault (Option Graph) := do
  if !chars.all isAllowed then throw .malformed
  let (tokens, fault) := tokensOf chars
  let start : Composer := ⟨tokens, fault, #[], [], Compose.usualHandles⟩
  let (root, state) ← (Compose.readDocument (4 * tokens.length + 8)).run start
  return root.map (⟨state.cells, ·⟩)

end EmberAssist.Yaml
