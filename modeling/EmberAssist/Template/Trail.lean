import EmberAssist.Template.Node
import EmberAssist.Text.Slice

/-! Trails: the chain of nodes from the root of a template down to the node at the cursor, with a
place in the chain that moves up to the parents. The nodes may be trees or vertices of a graph. -/
namespace EmberAssist.Template

/-- Values that stand for nodes: each has a layer over others and perhaps a place in the text. -/
class NodeLike (α : Type) where
  layer : α → Layer α
  range : α → Option Range

instance : NodeLike (Node Range) := ⟨Node.layer, Node.range⟩

/-- A node on a trail, and the slots of the node before it that hold this very node. -/
structure Visit (α : Type) where
  node : α
  slots : List Slot
deriving Repr

/-- The kind of node that is visited. -/
def Visit.layer {α : Type} [NodeLike α] (visit : Visit α) : Layer α := NodeLike.layer visit.node

/-- A chain of nodes and the index of the one in focus (`AstPath`). A negative index counts from the
end. -/
structure Trail (α : Type) where
  visits : List (Visit α)
  index : Int
deriving Repr

namespace Trail

variable {α : Type} [NodeLike α]

/-- A chain with its last node in focus, if there is one. -/
def ofVisits? (visits : List (Visit α)) : Option (Trail α) :=
  if visits.isEmpty then none else some ⟨visits, visits.length - 1⟩

/-- The node in focus, if the index is in the chain (`AstPath.node`). -/
def focus? (trail : Trail α) : Option (Visit α) := Text.item? trail.visits trail.index

/-- The node before the one in focus (`AstPath.parent`). The first node has none, nor has one counted
from the end. -/
def parent? (trail : Trail α) : Option (Visit α) :=
  if trail.index < 1 then none else Text.item? trail.visits (trail.index - 1)

/-- The trail with the focus moved to the node before it (`parent_path`). -/
def parentTrail? (trail : Trail α) : Option (Trail α) :=
  if trail.index < 1 then none else some ⟨trail.visits, trail.index - 1⟩

/-- Moves the focus up a number of times. -/
def up? : Nat → Trail α → Option (Trail α)
  | 0, trail => some trail
  | steps + 1, trail => trail.parentTrail?.bind (up? steps)

/-- The kinds of the nodes from the root to the focus. -/
def text (trail : Trail α) : String :=
  let shown := Text.takeTo trail.visits (trail.index + 1)
  "AstPath(" ++ " > ".intercalate (shown.map fun visit => visit.layer.typeName) ++ ")"

end Trail

/-! ## The node at a position of a tree -/

namespace Node

/-- The first list that is not empty among those made of the items. -/
def firstNonEmpty {α β : Type} (f : α → List β) : List α → List β
  | [] => []
  | a :: rest =>
    match f a with
    | [] => firstNonEmpty f rest
    | found => found

/-- The chain of placed nodes around a position, from the outermost to the innermost, below a node held
in some slots of the node before it (`_find_focus_path`). A placed node must contain the position; a
node without a place passes the search on to its children. The first child with a chain is taken. -/
def visitsAt (p : Position) (slots : List Slot) (node : Node Range) : List (Visit (Node Range)) :=
  match node with
  | mk none layer =>
    firstNonEmpty (fun ⟨(_, child), _held⟩ => visitsAt p [] child) layer.slots.attach
  | mk (some range) layer =>
    if range.contains p then
      ⟨mk (some range) layer, slots⟩ ::
        firstNonEmpty (fun ⟨(slot, child), _held⟩ => visitsAt p [slot] child) layer.slots.attach
    else []
termination_by node
decreasing_by
  all_goals
    have := sizeOf_lt_of_mem_slots _held
    simp
    omega

/-- The trail to the innermost node around a position (`resolve`). -/
def trailTo? (tree : Node Range) (p : Position) : Option (Trail (Node Range)) :=
  Trail.ofVisits? (tree.visitsAt p [])

end Node

end EmberAssist.Template
