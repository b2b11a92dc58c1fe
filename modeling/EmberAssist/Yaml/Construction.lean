import EmberAssist.Data.Base64
import EmberAssist.Data.Value
import EmberAssist.Text.Lowercase
import EmberAssist.Yaml.Composition

/-! The values that nodes stand for. -/
namespace EmberAssist.Yaml

open Data (Scalar Value ValueFault)

/-! ## Scalars -/

/-- A fault of a value. -/
def faulty {α : Type} (result : Except ValueFault α) : Reading α := result.mapError .value

/-- A truth value. -/
def readBool (chars : List Char) : Except ValueFault Scalar :=
  let word := Text.lower chars
  match truthWords.lookup (String.ofList word) with
  | some b => .ok (.bool b)
  | none => .error (.noTruthValue word)

/-- The number that digits in base sixty mean, the first of them counting most. -/
def ofBaseSixty (digits : List Int) : Int := digits.foldl (fun total digit => 60 * total + digit) 0

/-- A whole number in base two, eight, ten, sixteen or sixty. Underscores do not count. -/
def readInt (chars : List Char) : Except ValueFault Scalar := do
  let (negative, body) := Data.splitSign (chars.filter (· != '_'))
  let magnitude ←
    match body with
    | [] => throw .emptyNumber
    | ['0'] => pure 0
    | '0' :: 'b' :: digits => Data.readInteger 2 digits
    | '0' :: 'x' :: digits => Data.readInteger 16 digits
    | '0' :: _ => Data.readInteger 8 body
    | _ =>
      if body.contains ':' then
        return .int (← signed negative <$> ofBaseSixty <$>
          (Text.splitOn ':' body).mapM (Data.readInteger 10))
      else Data.readInteger 10 body
  return .int (signed negative magnitude)
where
  signed (negative : Bool) (n : Int) : Int := if negative then -n else n

/-- The number that parts in base sixty mean, the last of them first and `unit` being what it counts. -/
def sumBaseSixty (total : Double) (unit : Int) : List Double → Double
  | [] => total
  | digit :: digits => sumBaseSixty (total.add (digit.mul (.ofInt unit))) (60 * unit) digits

/-- A number of double precision, in base ten or sixty. Underscores do not count. -/
def readDouble (chars : List Char) : Except ValueFault Scalar := do
  let text := Text.lower (chars.filter (· != '_'))
  if text.isEmpty then throw .emptyNumber
  let (negative, body) := Data.splitSign text
  if body == ".nan".toList then return .float .nan
  let magnitude ←
    if body == ".inf".toList then pure (.infinite false)
    else if body.contains ':' then do
      let parts ← (Text.splitOn ':' body).mapM Data.readFloat
      pure (sumBaseSixty (.finite false 0 0) 1 parts.reverse)
    else Data.readFloat body
  return .float (if negative then magnitude.neg else magnitude)

/-- Parts of a second in millionths; further digits do not count. -/
def microsOf (digits : List Char) : Nat :=
  Text.digitsValue (digits.take 6 ++ List.replicate (6 - digits.length) '0')

/-- A day or a moment. -/
def readCalendar (chars : List Char) : Except ValueFault Scalar := do
  match readTimestamp? (dropFinalBreak chars) with
  | none => throw .noMoment
  | some ⟨day, none⟩ =>
    day.check.mapError .calendar
    return .day day
  | some ⟨day, some (hour, minute, second, fraction, ahead)⟩ =>
    let moment : Data.Moment := ⟨day, hour, minute, second, microsOf fraction, ahead⟩
    moment.check.mapError .calendar
    return .moment moment

/-- The scalar with a tag and a text; nothing for the tags of collections. -/
def scalarOf (tag : Tag) (text : Reading (List Char)) : Reading (Option Scalar) := do
  match tag with
  | .null => do
    let _ ← text
    return some .null
  | .bool => some <$> faulty (readBool (← text))
  | .int => some <$> faulty (readInt (← text))
  | .float => some <$> faulty (readDouble (← text))
  | .timestamp => some <$> faulty (readCalendar (← text))
  | .str => return some (.text (← text))
  | .binary =>
    let chars ← text
    match if chars.all (·.toNat < 0x80) then Data.Base64.decode? chars else none with
    | some bytes => return some (.bytes bytes)
    | none => malformed
  | .seq | .map | .omap | .pairs | .set => return none
  | .merge | .value | .unknown => malformed

namespace Graph

variable (graph : Graph)

/-- The text of a node: its own, or that of the value of its key for values. -/
def textOf : Nat → Nat → Reading (List Char)
  | 0, _ => malformed
  | bound + 1, number =>
    match graph.cell number with
    | .scalar _ chars => .ok chars
    | .sequence .. => malformed
    | .mapping _ entries =>
      match entries.find? fun (key, _) => (graph.cell key).tag = .value with
      | some (_, value) => textOf bound value
      | none => malformed

/-- How deep nodes can be inside one another without one of them being inside itself. -/
def depthBound : Nat := graph.cells.size + 1

/-- The scalar that a node stands for, or nothing if it stands for a collection. -/
def scalarAt (number : Nat) : Reading (Option Scalar) :=
  scalarOf (graph.cell number).tag (graph.textOf graph.depthBound number)

/-- The scalar that a key stands for. The sign for values is a text there. -/
def keyAt (number : Nat) : Reading Scalar := do
  if (graph.cell number).tag = .value then
    return .text (← graph.textOf graph.depthBound number)
  else
    match ← graph.scalarAt number with
    | some key => return key
    | none => malformed

mutual

/-- The entries of a mapping: those of the mappings that are merged into it, and its own behind them.
A mapping inside itself is merged without what is merged into it. -/
def entriesOf : Nat → List Nat → Nat → Reading (List (Nat × Nat))
  | 0, _, _ => malformed
  | bound + 1, above, number =>
    match graph.cell number with
    | .mapping _ entries => do
      let isMerge := fun (entry : Nat × Nat) => (graph.cell entry.1).tag == Tag.merge
      let own := entries.filter (!isMerge ·)
      if above.contains number then return own
      else
        let merged ← (entries.filter isMerge).mapM fun (_, value) =>
          mergedFrom bound (number :: above) value
        return merged.flatten ++ own
    | _ => malformed

/-- The entries that a node merges into a mapping. Of several mappings the first counts most, so it
comes last. -/
def mergedFrom : Nat → List Nat → Nat → Reading (List (Nat × Nat))
  | 0, _, _ => malformed
  | bound + 1, above, number =>
    match graph.cell number with
    | .mapping .. => entriesOf bound above number
    | .sequence _ items => do return (← items.mapM (entriesOf bound above)).reverse.flatten
    | .scalar .. => malformed

end

/-- The entries of a mapping with what is merged into it. -/
def entriesAt (number : Nat) : Reading (List (Nat × Nat)) :=
  graph.entriesOf (2 * graph.depthBound) [] number

/-- The pairs in a list of mappings of one entry each. -/
def pairsAt (number : Nat) : Reading (List (Nat × Nat)) :=
  match graph.cell number with
  | .sequence _ items => items.mapM fun item =>
    match graph.cell item with
    | .mapping _ [entry] => .ok entry
    | _ => malformed
  | _ => malformed

/-- The items of a sequence. -/
def itemsAt (number : Nat) : Reading (List Nat) :=
  match graph.cell number with
  | .sequence _ items => .ok items
  | _ => malformed

/-! ## Collections -/

/-- The parts of a collection that are collections themselves, if nothing is wrong with the others. -/
def innerCollections (number : Nat) : Reading (List Nat) := do
  let collections := fun (parts : List Nat) => do
    let found ← parts.mapM fun part => do return (part, (← graph.scalarAt part).isNone)
    return (found.filter (·.2)).map (·.1)
  match (graph.cell number).tag with
  | .seq => collections (← graph.itemsAt number)
  | .omap | .pairs => do
    let inner ← (← graph.pairsAt number).mapM fun (key, value) => collections [key, value]
    return inner.flatten
  | _ => do
    let inner ← (← graph.entriesAt number).mapM fun (key, value) => do
      let _ ← graph.keyAt key
      collections [value]
    return inner.flatten

/-- Checks collections level by level, those of `seen` having been checked before. -/
def checkLevels : Nat → List Nat → List Nat → Reading Unit
  | 0, _, _ => .ok ()
  | _, _, [] => .ok ()
  | bound + 1, seen, level => do
    let inner ← level.mapM graph.innerCollections
    let seen := level ++ seen
    checkLevels bound seen (inner.flatten.eraseDups.filter (!seen.contains ·))

/-- The value of a collection inside itself. -/
def enclosingValue (number : Nat) : Value :=
  match graph.cell number with
  | .mapping .. => .enclosingMap
  | _ => .enclosingList

/-- Whether a node is a group: it stands for a mapping. -/
def isGroup (number : Nat) : Bool := (graph.cell number).tag == .map

/-- The nodes that a node is written inside of, of those `above` it. What is in groups alone is
written by itself, unless it is a group. -/
def writtenInside (above : List Nat) (number : Nat) : List Nat :=
  if above.all graph.isGroup && !graph.isGroup number then [] else above

/-- The value that a node stands for, inside the nodes `above` it. -/
def valueOf : Nat → List Nat → Nat → Reading Value
  | 0, _, _ => malformed
  | bound + 1, above, number => do
    if above.contains number then return graph.enclosingValue number
    else
      match ← graph.scalarAt number with
      | some s => return .scalar s
      | none =>
        let inner := valueOf bound (number :: graph.writtenInside above number)
        match (graph.cell number).tag with
        | .seq => return .list (← (← graph.itemsAt number).mapM inner)
        | .omap | .pairs => do
          let pairs ← (← graph.pairsAt number).mapM fun (key, value) => do
            return Value.pair (← inner key) (← inner value)
          return .list pairs
        | .set => do
          let keys ← (← graph.entriesAt number).mapM fun (key, _) => graph.keyAt key
          return .set (keys.foldl (fun kept key =>
            if kept.any (·.sameKey key) then kept else kept ++ [key]) [])
        | _ => do
          let entries ← (← graph.entriesAt number).mapM fun (key, value) => do
            return (← graph.keyAt key, ← inner value)
          return .ofEntries entries

/-- The value that a document stands for. Faults are found level by level, from the outermost
collection inwards. -/
def value : Reading Value := do
  let root ← graph.scalarAt graph.root
  if root.isNone then graph.checkLevels graph.depthBound [] [graph.root]
  graph.valueOf (2 * graph.depthBound) [] graph.root

end Graph

/-- Reads a text that holds one document at most; without one its value is null (`safe_load`). -/
def read (chars : List Char) : Reading Value := do
  match ← Graph.ofText? chars with
  | some graph => graph.value
  | none => return .scalar .null

end EmberAssist.Yaml
