import EmberAssist.Yaml.Tag

/-! The nodes of a document. An alias stands for the very node that its anchor names, so nodes can have
several places in a document, and a collection can be inside itself. -/
namespace EmberAssist.Yaml

/-- A node, its parts given by their numbers. -/
inductive Cell where
  | scalar (tag : Tag) (chars : List Char)
  | sequence (tag : Tag) (items : List Nat)
  | mapping (tag : Tag) (entries : List (Nat × Nat))
deriving Repr, Inhabited

/-- The tag of a node. -/
def Cell.tag : Cell → Tag
  | scalar tag _ => tag
  | sequence tag _ => tag
  | mapping tag _ => tag

/-- The nodes of a document by their numbers, and where it begins. -/
structure Graph where
  cells : Array Cell
  root : Nat
deriving Repr, Inhabited

/-- The node with a number. -/
def Graph.cell (graph : Graph) (number : Nat) : Cell := graph.cells[number]?.getD default

end EmberAssist.Yaml
