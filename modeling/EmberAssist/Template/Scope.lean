import EmberAssist.Template.Trail

/-! Names that a template declares itself: block parameters of the elements and blocks around the
cursor. -/
namespace EmberAssist.Template

/-- A block parameter: its name, its number in the declaration, and the place on the trail of the
node that declares it (`ScopeBinding`). -/
structure Binding (α : Type) where
  name : String
  index : Nat
  declaring : Visit α
  place : Nat

namespace Trail

variable {α : Type} [NodeLike α]

/-- The block parameters that a visited node declares. -/
def declarations (visit : Visit α) (place : Nat) : List (Binding α) :=
  visit.layer.declared.zipIdx.map fun (name, index) => ⟨name, index, visit, place⟩

/-- The block parameters declared before the focus, nearest first and in each declaration in
order (`local_scope`). -/
def localScope (trail : Trail α) : List (Binding α) :=
  let above := (trail.visits.take trail.index.toNat).zipIdx
  above.reverse.flatMap fun (visit, place) => declarations visit place

/-- The first segment of the path in focus, if it can name a block parameter (`_local_path_name`). -/
def localName? (trail : Trail α) : Option String :=
  match trail.focus?.map Visit.layer with
  | some (.path _ (head :: _) _) => if head = "this" then none else some head
  | _ => none

/-- The nearest declaration of the name in focus. -/
def declaration? (trail : Trail α) : Option (Binding α) :=
  trail.localName?.bind fun name => trail.localScope.find? (·.name = name)

/-- Whether the path in focus begins with a block parameter (`is_local_scoped_path_expression`). -/
def isLocal (trail : Trail α) : Bool := trail.declaration?.isSome

/-- The tag of an element. -/
def tagOf (visit : Visit α) : Option String :=
  match visit.layer with
  | .element tag .. => some tag
  | _ => none

/-- The tag of the element that declares the name in focus, if an element does
(`component_name_for_path`). -/
def componentName? (trail : Trail α) : Option String :=
  trail.declaration?.bind fun binding => tagOf binding.declaring

end Trail

end EmberAssist.Template
