import EmberAssist.Text.Utf8

/-! Trees of script sources. A leaf is a stretch of the source; a branch holds leaves and branches in
the order of the source, some of them under the name of the field they fill. Offsets count bytes. -/
namespace EmberAssist.Script

/-- The kinds of leaf. -/
inductive LeafKind where
  | name
  | number
  | string
  | regex
  | comment
  | text
  | mark
deriving DecidableEq, Repr

/-- The kinds of branch. Nothing is looked for in branches of another kind. -/
inductive BranchKind where
  | program
  | parenthesized
  | arguments
  | array
  | object
  | block
  | template
  | substitution
  | element
  | member
  | subscript
  | call
  | construction
  | assignment
  | operation
  | pair
  | other
deriving DecidableEq, Repr

/-- The part that a node plays in the branch that holds it. -/
inductive Field where
  | none
  | callee
  | arguments
  | object
  | property
  | left
  | right
  | key
  | value
deriving DecidableEq, Repr

/-- A tree of a script's source. -/
inductive Node where
  | leaf (kind : LeafKind) (start : Nat) (text : List Char)
  | branch (kind : BranchKind) (start stop : Nat) (children : List (Field × Node))
deriving Repr

namespace Node

instance : Inhabited Node := ⟨.leaf .text 0 []⟩

/-- The offset at which a node begins. -/
def start : Node → Nat
  | leaf _ start _ => start
  | branch _ start _ _ => start

/-- The offset at which a node ends. -/
def stop : Node → Nat
  | leaf _ start text => start + Text.utf8Length text
  | branch _ _ stop _ => stop

/-- The nodes that a node holds, with their fields. -/
def children : Node → List (Field × Node)
  | leaf .. => []
  | branch _ _ _ children => children

/-- The nodes that a node holds. -/
def held (node : Node) : List Node := node.children.map (·.2)

/-- The first node in a field. -/
def inField? (node : Node) (field : Field) : Option Node :=
  (node.children.find? (·.1 = field)).map (·.2)

/-- Whether a node is a leaf of some kind. -/
def isLeaf (kind : LeafKind) : Node → Bool
  | leaf kind' _ _ => kind' = kind
  | branch .. => false

/-- Whether a node is a branch of some kind. -/
def isBranch (kind : BranchKind) : Node → Bool
  | leaf .. => false
  | branch kind' _ _ _ => kind' = kind

/-- Whether a node is a given mark. -/
def isMark (text : List Char) : Node → Bool
  | leaf .mark _ text' => text' = text
  | _ => false

/-- The text of a leaf. -/
def leafText? : Node → Option (List Char)
  | leaf _ _ text => some text
  | branch .. => none

/-- What a node holds is smaller than the node. -/
theorem sizeOf_held_lt (node : Node) : sizeOf node.held < sizeOf node := by
  cases node with
  | leaf kind start text =>
    have single : sizeOf kind = 1 := by cases kind <;> rfl
    simp only [held, children, List.map_nil, List.nil.sizeOf_spec, leaf.sizeOf_spec]
    omega
  | branch kind start stop children =>
    have bound : sizeOf (children.map (·.2)) ≤ sizeOf children := by
      induction children with
      | nil => simp
      | cons child children ih =>
        cases child
        simp only [List.map_cons, List.cons.sizeOf_spec, Prod.mk.sizeOf_spec]
        omega
    simp only [held, Node.children, branch.sizeOf_spec]
    omega

theorem sizeOf_lt_of_mem_held {node child : Node} (member : child ∈ node.held) :
    sizeOf child < sizeOf node :=
  Nat.lt_trans (List.sizeOf_lt_of_mem member) node.sizeOf_held_lt

end Node

end EmberAssist.Script
