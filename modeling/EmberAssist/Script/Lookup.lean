import EmberAssist.Document.Language
import EmberAssist.Script.Node

/-! What is looked up in scripts: the key of a phrase at the cursor, and the prefix of pods that
an environment configures. -/
namespace EmberAssist.Script

/-- How scripts are read. -/
structure Reader where
  /-- The tree of a script in a language. -/
  tree : Language → List Char → Node
  /-- The nodes of a tree around an offset in bytes, innermost first. A string has no nodes inside. -/
  around : Node → Nat → List Node

/-- The text of a string without its quotes, and the offsets in bytes between them. -/
structure ScriptString where
  value : List Char
  start : Nat
  stop : Nat
deriving DecidableEq, Repr

/-- A text without its first and its last character. -/
def withoutQuotes (text : List Char) : List Char := (text.drop 1).dropLast

/-- The string that a leaf is (`_string_content`). -/
def Node.asString? : Node → Option ScriptString
  | .leaf .string start text =>
    some ⟨withoutQuotes text, start + 1, start + Text.utf8Length text - 1⟩
  | _ => none

/-! ## The cursor -/

/-- Whether a node counts as an argument or a comment, and not as a mark between them. -/
def isNamed (node : Node) : Bool := !node.isLeaf .mark

/-- The function that gives the text of a phrase. -/
def phraseFunction : List Char := ['t']

/-- Whether phrases are what an invocation asks for: by the function's name, or by a property of
that name (`_is_translation_callee`). -/
def callsPhrase (callee : Node) : Bool :=
  match callee with
  | .leaf .name _ text => text == phraseFunction
  | .branch .member .. =>
    ((callee.inField? .property).bind Node.leafText?) == some phraseFunction
  | _ => false

/-- The innermost of the nodes around an offset, if it is a string and the first argument of an
invocation that asks for a phrase (`find_translation_argument`). -/
def phraseArgument? (around : List Node) : Option ScriptString :=
  match around with
  | string :: .branch .arguments start stop children :: call :: _ =>
    let first := ((children.map (·.2)).find? isNamed).map Node.start
    let arguments := Node.branch .arguments start stop children
    if string.isLeaf .string && arguments.isBranch .arguments && first == some string.start &&
        call.isBranch .call && ((call.inField? .callee).map callsPhrase).getD false then
      string.asString?
    else none
  | _ => none

/-! ## The order of a search -/

/-- Puts nodes on a stack, one after the other. -/
def pushAll (nodes stack : List Node) : List Node :=
  nodes.foldl (fun stack node => node :: stack) stack

/-- Pushed from the last to the first, nodes lie on a stack in their order. -/
theorem pushAll_reverse (nodes stack : List Node) : pushAll nodes.reverse stack = nodes ++ stack := by
  rw [pushAll, List.foldl_reverse]
  exact List.foldr_cons_eq_append'

private theorem sizeOf_append (nodes stack : List Node) :
    sizeOf (nodes ++ stack) + 1 = sizeOf nodes + sizeOf stack := by
  induction nodes with
  | nil => rw [List.nil_append, List.nil.sizeOf_spec, Nat.add_comm]
  | cons node nodes ih =>
    rw [List.cons_append, List.cons.sizeOf_spec, List.cons.sizeOf_spec]
    omega

/-- A node makes room for all that it holds. -/
theorem sizeOf_pushAll_held_lt (node : Node) (stack : List Node) :
    sizeOf (pushAll node.held.reverse stack) < sizeOf (node :: stack) := by
  have together := sizeOf_append node.held stack
  have smaller := node.sizeOf_held_lt
  rw [pushAll_reverse, List.cons.sizeOf_spec]
  omega

/-- The nodes that a stack leads to: the node on its top, and then those that it leads to when the nodes
held by that one are put in its place, the last of them first. -/
def walkFrom : List Node → List Node
  | [] => []
  | node :: stack => node :: walkFrom (pushAll node.held.reverse stack)
termination_by stack => sizeOf stack
decreasing_by exact sizeOf_pushAll_held_lt node stack

/-- The nodes of a tree in the order of a search (`_walk`). -/
def walk (root : Node) : List Node := walkFrom [root]

/-! ## The prefix of pods -/

/-- The name under which an environment configures the prefix of pods. -/
def podPrefixName : List Char := "podModulePrefix".toList

/-- The name of a property, in quotes or not (`_property_name`). -/
def propertyName? (node : Node) : Option (List Char) :=
  match node.asString? with
  | some string => some string.value
  | none => node.leafText?

/-- Name and value of what a node configures: a property of an object, or an assignment to a
property. -/
def configured? (node : Node) : Option (Node × Node) :=
  match node with
  | .branch .pair .. => do return (← node.inField? .key, ← node.inField? .value)
  | .branch .assignment .. => do
    let left ← node.inField? .left
    if left.isBranch .member then
      return (← left.inField? .property, ← node.inField? .right)
    else none
  | _ => none

/-- The prefix of pods that a node configures by a plain string. -/
def podPrefixAt? (node : Node) : Option (List Char) := do
  let (key, value) ← configured? node
  let string ← value.asString?
  if (propertyName? key) == some podPrefixName then some string.value else none

/-- The prefix of pods that a script configures first (`find_pod_module_prefix`). -/
def podPrefix? (root : Node) : Option (List Char) := (walk root).findSome? podPrefixAt?

end EmberAssist.Script
