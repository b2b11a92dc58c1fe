import EmberAssist.Template.Trail

/-! What can be completed at the focus of a trail. -/
namespace EmberAssist.Template

/-- The places in a template at which names can be completed (`CompletionContext`). -/
inductive Context where
  | mustache
  | block
  | subExpression
  | link
  | none
deriving DecidableEq, Repr

namespace Context

/-- The name of a context. -/
def name : Context → String
  | mustache => "mustache"
  | block => "block"
  | subExpression => "sub-expression"
  | link => "link"
  | none => "none"

/-- The context with a name. -/
def ofName? (text : String) : Option Context :=
  [mustache, block, subExpression, link, none].find? (·.name = text)

end Context

/-- The helper that links to a route. -/
def linkHelper : String := "link-to"

/-- The helper that gives the text of a phrase. -/
def phraseHelper : String := "t"

/-- The spelling of a path. -/
def pathSpelling? {α : Type} : Layer α → Option String
  | .path spelling .. => some spelling
  | _ => none

/-- The value of a string literal. -/
def stringValue? {α : Type} : Layer α → Option String
  | .stringLiteral value _ => some value
  | _ => none

namespace Trail

variable {α : Type} [NodeLike α]

/-- Whether the focus is held in a slot of its parent. -/
def isHeldIn (trail : Trail α) (slot : Slot) : Bool :=
  (trail.focus?.map (·.slots.contains slot)).getD false

/-- Whether the focus is a path. -/
def isAtPath (trail : Trail α) : Bool :=
  (trail.focus?.bind fun visit => pathSpelling? visit.layer).isSome

/-- Whether the focus is a string literal. -/
def isAtString (trail : Trail α) : Bool :=
  (trail.focus?.bind fun visit => stringValue? visit.layer).isSome

/-- The parent's layer. -/
def parentLayer? (trail : Trail α) : Option (Layer α) := trail.parent?.map Visit.layer

/-- Whether the focus is what a mustache invokes (`is_mustache_path`). -/
def isMustachePath (trail : Trail α) : Bool :=
  match trail.parentLayer? with
  | some (.mustache ..) => trail.isAtPath && trail.isHeldIn .callee
  | _ => false

/-- Whether the focus is what a block invokes (`is_block_path`). -/
def isBlockPath (trail : Trail α) : Bool :=
  match trail.parentLayer? with
  | some (.blockCall ..) => trail.isAtPath && trail.isHeldIn .callee
  | _ => false

/-- Whether the focus is what a subexpression invokes (`is_sub_expression_path`). -/
def isSubExpressionPath (trail : Trail α) : Bool :=
  match trail.parentLayer? with
  | some (.subExpression _) => trail.isAtPath && trail.isHeldIn .callee
  | _ => false

/-- Whether something is invoked by a given name. -/
def calls (call : Call α) (name : String) : Bool :=
  pathSpelling? (NodeLike.layer call.callee) == some name

/-- Whether the focus names the target of a link: the second argument between braces, where the first
is the link's text, or the first argument of a block (`is_link_to_target`). -/
def isLinkTarget (trail : Trail α) : Bool :=
  match trail.parentLayer? with
  | some (.mustache call _) =>
    trail.isAtString && trail.isHeldIn (.params 1) && calls call linkHelper
  | some (.blockCall call ..) =>
    trail.isAtString && trail.isHeldIn (.params 0) && calls call linkHelper
  | _ => false

/-- Whether the focus names a phrase: the first argument of the phrase helper
(`is_translation_key_path`). -/
def isPhraseKey (trail : Trail α) : Bool :=
  match trail.parentLayer? with
  | some (.mustache call _) | some (.subExpression call) =>
    trail.isAtString && trail.isHeldIn (.params 0) && calls call phraseHelper
  | _ => false

/-- What can be completed at the focus (`classify`). -/
def context (trail : Trail α) : Context :=
  if trail.isMustachePath then .mustache
  else if trail.isBlockPath then .block
  else if trail.isSubExpressionPath then .subExpression
  else if trail.isLinkTarget then .link
  else .none

end Trail

end EmberAssist.Template
