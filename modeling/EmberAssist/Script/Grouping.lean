import EmberAssist.Script.Token

/-! Tokens nested by their brackets. What stands between a pair of brackets becomes one branch, whose
inside is arranged by a given function when the bracket closes. -/
namespace EmberAssist.Script

/-- A bracket that is open: where it opened, and the nodes read since, nearest first. -/
structure OpenBracket where
  bracket : Bracket
  opening : Node
  inside : List Node

/-- Gives nodes no fields. -/
def plain (nodes : List Node) : List (Field × Node) := nodes.map fun node => (.none, node)

/-- A branch that spans the nodes it holds. -/
def spanning (kind : BranchKind) (children : List (Field × Node)) : Node :=
  let start := (children.head?.map (·.2.start)).getD 0
  let stop := (children.getLast?.map (·.2.stop)).getD start
  .branch kind start stop children

/-- Whether nodes are properties with commas between them. `mayEnd` says whether a comma or the end
comes next, and not a property. -/
def isPropertyRow (mayEnd : Bool) : List Node → Bool
  | [] => true
  | node :: rest =>
    if node.isLeaf .comment then isPropertyRow mayEnd rest
    else if mayEnd then node.isMark [','] && isPropertyRow false rest
    else (node.isBranch .pair || node.isLeaf .name) && isPropertyRow true rest

/-- Whether braces where a statement can begin hold an object: their nodes, arranged as an object's,
are properties, of which the first has a value. -/
def holdsObject (arranged : List Node) : Bool :=
  ((arranged.find? (!·.isLeaf .comment)).map (·.isBranch .pair)).getD false &&
    isPropertyRow false arranged

/-- The branch of a bracket. -/
def OpenBracket.close (arrange : Bool → List Node → List Node) (opened : OpenBracket)
    (closing : List Node) : Node :=
  let asObject := arrange true opened.inside.reverse
  let isObject := opened.bracket = .object || (opened.bracket = .statement && holdsObject asObject)
  let inside := if isObject then asObject else arrange false opened.inside.reverse
  let kind := if isObject then .object else opened.bracket.branchKind
  spanning kind (plain (opened.opening :: inside ++ closing))

/-- Puts a node into the innermost open bracket, or behind the nodes outside all brackets. -/
def place (node : Node) : List OpenBracket → List Node → List OpenBracket × List Node
  | [], outside => ([], node :: outside)
  | inner :: outer, outside => ({ inner with inside := node :: inner.inside } :: outer, outside)

/-- Closes the brackets that are still open at the end, from the innermost outwards, and gives all
nodes in order. -/
def closeAll (arrange : Bool → List Node → List Node) (closed : Option Node) :
    List OpenBracket → List Node → List Node
  | [], outside => (closed.toList ++ outside).reverse
  | inner :: outer, outside =>
    let inner := { inner with inside := closed.toList ++ inner.inside }
    closeAll arrange (some (inner.close arrange [])) outer outside

/-- Nests tokens. A closing bracket without an opening one is a mark. -/
def nest (arrange : Bool → List Node → List Node) :
    List OpenBracket → List Node → List Token → List Node
  | opened, outside, [] => closeAll arrange none opened outside
  | opened, outside, .leaf kind start text :: rest =>
    let (opened, outside) := place (.leaf kind start text) opened outside
    nest arrange opened outside rest
  | opened, outside, .opening bracket start text :: rest =>
    nest arrange (⟨bracket, .leaf .mark start text, []⟩ :: opened) outside rest
  | [], outside, .closing start text :: rest =>
    nest arrange [] (.leaf .mark start text :: outside) rest
  | inner :: outer, outside, .closing start text :: rest =>
    let (outer, outside) := place (inner.close arrange [.leaf .mark start text]) outer outside
    nest arrange outer outside rest

end EmberAssist.Script
