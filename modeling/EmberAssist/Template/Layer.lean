import EmberAssist.Number.Double

/-! One level of a template tree. A layer says what a node is and holds its children, whatever they
are: whole subtrees in a tree, vertices in a graph of shared nodes. -/
namespace EmberAssist.Template

/-- An invocation: what is called, its positional arguments and its named ones. -/
structure Call (α : Type) where
  callee : α
  params : List α
  hash : α
deriving DecidableEq, Repr, Inhabited

/-- The kinds of node that a template is made of. -/
inductive Layer (α : Type) where
  | template (body : List α) (blockParams : List String)
  | block (body : List α) (blockParams : List String)
  | element (tag : String) (selfClosing : Bool) (attributes modifiers comments : List α)
      (blockParams : List String) (children : List α)
  | attr (name : String) (value : α)
  | concat (parts : List α)
  | mustache (call : Call α) (trusting : Bool)
  | blockCall (call : Call α) (program : α) (inverse : Option α)
  | modifier (call : Call α)
  | subExpression (call : Call α)
  | hash (pairs : List α)
  | hashPair (key : String) (value : α)
  | path (spelling : String) (parts : List String) (data : Bool)
  | stringLiteral (value spelling : String)
  | numberLiteral (value : Double) (spelling : String)
  | booleanLiteral (value : Bool)
  | nullLiteral
  | undefinedLiteral
  | text (chars : String)
  | comment (value : String)
  | mustacheComment (value : String)
deriving DecidableEq, Repr, Inhabited

/-- Where in its parent a child stands; places in a list are numbered. -/
inductive Slot where
  | body (index : Nat)
  | attributes (index : Nat)
  | modifiers (index : Nat)
  | comments (index : Nat)
  | children (index : Nat)
  | value
  | parts (index : Nat)
  | callee
  | params (index : Nat)
  | hash
  | pairs (index : Nat)
  | program
  | inverse
deriving DecidableEq, Repr, Inhabited

/-- Children in a list, each with its numbered slot. -/
def numbered {α : Type} (slot : Nat → Slot) (items : List α) : List (Slot × α) :=
  items.zipIdx.map fun (item, index) => (slot index, item)

namespace Layer

variable {α β : Type}

/-- The children of an invocation in order. -/
def callSlots (call : Call α) : List (Slot × α) :=
  (.callee, call.callee) :: (numbered .params call.params ++ [(.hash, call.hash)])

/-- The children of a layer with their slots, in the order in which they are visited. -/
def slots : Layer α → List (Slot × α)
  | template body _ => numbered .body body
  | block body _ => numbered .body body
  | element _ _ attributes modifiers comments _ children =>
    numbered .attributes attributes ++ numbered .modifiers modifiers ++
      numbered .comments comments ++ numbered .children children
  | attr _ value => [(.value, value)]
  | concat parts => numbered .parts parts
  | mustache call _ => callSlots call
  | blockCall call program inverse =>
    callSlots call ++ (.program, program) :: (inverse.map fun block => (Slot.inverse, block)).toList
  | modifier call => callSlots call
  | subExpression call => callSlots call
  | hash pairs => numbered .pairs pairs
  | hashPair _ value => [(.value, value)]
  | path .. | stringLiteral .. | numberLiteral .. | booleanLiteral _ | nullLiteral
  | undefinedLiteral | text _ | comment _ | mustacheComment _ => []

/-- The children of a layer in the order in which they are visited (`iter_children`). -/
def children (layer : Layer α) : List α := layer.slots.map (·.2)

/-- The same layer over other children. -/
def map (f : α → β) : Layer α → Layer β
  | template body params => template (body.map f) params
  | block body params => block (body.map f) params
  | element tag closed attributes modifiers comments params inner =>
    element tag closed (attributes.map f) (modifiers.map f) (comments.map f) params (inner.map f)
  | attr name value => attr name (f value)
  | concat parts => concat (parts.map f)
  | mustache call trusting => mustache ⟨f call.callee, call.params.map f, f call.hash⟩ trusting
  | blockCall call program inverse =>
    blockCall ⟨f call.callee, call.params.map f, f call.hash⟩ (f program) (inverse.map f)
  | modifier call => modifier ⟨f call.callee, call.params.map f, f call.hash⟩
  | subExpression call => subExpression ⟨f call.callee, call.params.map f, f call.hash⟩
  | hash pairs => hash (pairs.map f)
  | hashPair key value => hashPair key (f value)
  | path spelling parts data => path spelling parts data
  | stringLiteral value spelling => stringLiteral value spelling
  | numberLiteral value spelling => numberLiteral value spelling
  | booleanLiteral value => booleanLiteral value
  | nullLiteral => nullLiteral
  | undefinedLiteral => undefinedLiteral
  | text chars => text chars
  | comment value => comment value
  | mustacheComment value => mustacheComment value

/-- The name of a node's kind. -/
def typeName : Layer α → String
  | template .. => "Template"
  | block .. => "Block"
  | element .. => "ElementNode"
  | attr .. => "AttrNode"
  | concat _ => "ConcatStatement"
  | mustache .. => "MustacheStatement"
  | blockCall .. => "BlockStatement"
  | modifier _ => "ElementModifierStatement"
  | subExpression _ => "SubExpression"
  | hash _ => "Hash"
  | hashPair .. => "HashPair"
  | path .. => "PathExpression"
  | stringLiteral .. => "StringLiteral"
  | numberLiteral .. => "NumberLiteral"
  | booleanLiteral _ => "BooleanLiteral"
  | nullLiteral => "NullLiteral"
  | undefinedLiteral => "UndefinedLiteral"
  | text _ => "TextNode"
  | comment _ => "CommentStatement"
  | mustacheComment _ => "MustacheCommentStatement"

/-- The block parameters that a node declares for its content. -/
def declared : Layer α → List String
  | block _ params => params
  | element _ _ _ _ _ params _ => params
  | _ => []

end Layer

end EmberAssist.Template
