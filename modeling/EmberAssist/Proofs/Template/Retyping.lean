import EmberAssist.Template.Focus
import EmberAssist.Proofs.Template.Lexemes
import EmberAssist.Proofs.Template.Ranges

/-! The tree of a text in which something is typed: spans behind the cursor move on, and the token is
spelled anew. -/
namespace EmberAssist.Template

variable {α β : Type}

/-- What a mustache or a subexpression invokes. -/
def invoked? : Layer α → Option α
  | .mustache call _ | .subExpression call => some call.callee
  | _ => none

theorem mem_children_of_invoked? {layer : Layer α} {callee : α}
    (invoked : invoked? layer = some callee) : callee ∈ layer.children := by
  cases layer with
  | mustache call trusting =>
    cases invoked
    simp [Call.nodes]
  | subExpression call =>
    cases invoked
    simp [Call.nodes]
  | _ => cases invoked

theorem spelling?_map (f : α → β) (layer : Layer α) : spelling? (layer.map f) = spelling? layer := by
  cases layer <;> rfl

/-- What has a spelling has no parts. -/
theorem children_of_spelling? {layer : Layer α} (spelled : (spelling? layer).isSome = true) :
    layer.children = [] := by
  cases layer with
  | path | stringLiteral => rfl
  | _ => cases spelled

/-- What holds something has no spelling. -/
theorem Node.spelling?_of_child? {ρ : Type} {node child : Node ρ} {slot : Slot}
    (held : node.child? slot = some child) : spelling? node.layer = none := by
  by_contra spelled
  have leaf := children_of_spelling? (Option.isSome_iff_ne_none.mpr spelled)
  have member := Node.mem_children_of_child? held
  rw [show node.children = [] from leaf] at member
  cases member

@[simp] theorem Layer.map_wordLayer (f : α → β) (word : List Char) :
    (wordLayer word).map f = wordLayer word := by
  simp only [wordLayer]
  split_ifs <;> rfl

@[simp] theorem invoked?_wordLayer (word : List Char) :
    invoked? (wordLayer word : Layer α) = none := by
  simp only [wordLayer]
  split_ifs <;> rfl

theorem pathSpelling?_map (f : α → β) (layer : Layer α) :
    pathSpelling? (layer.map f) = pathSpelling? layer := by
  cases layer <;> rfl

theorem stringValue?_map (f : α → β) (layer : Layer α) :
    stringValue? (layer.map f) = stringValue? layer := by
  cases layer <;> rfl

theorem calleeName_eq (callee : Node Span) : calleeName callee = pathSpelling? callee.layer := by
  unfold calleeName pathSpelling?
  cases callee.layer <;> rfl

@[simp] theorem Node.children_between (start stop : Input) (layer : Layer (Node Span)) :
    (Node.between start stop layer).children = layer.children := rfl

/-- The same invocation of other nodes. -/
def Call.map (f : α → β) (call : Call α) : Call β :=
  ⟨f call.callee, call.params.map f, f call.hash⟩

@[simp] theorem Call.nodes_map (f : α → β) (call : Call α) :
    (call.map f).nodes = call.nodes.map f := by
  simp [Call.map, Call.nodes]

/-- The same content of a start tag with other nodes. -/
def TagContent.map (f : Node Span → Node Span) (content : TagContent) : TagContent :=
  { content with
    attributes := content.attributes.map f
    modifiers := content.modifiers.map f
    comments := content.comments.map f }

/-- What a construct gives, with other nodes. -/
def Yield.map (f : Node Span → Node Span) : Yield → Yield
  | .node single => .node (f single)
  | .call found => .call (found.map f)
  | .arguments params pairs => .arguments (params.map f) (pairs.map f)
  | .mustache found trusting => .mustache (found.map f) trusting
  | .blockTag found names => .blockTag (found.map f) names
  | .list several => .list (several.map f)
  | .content found => .content (found.map f)
  | .blockTail program inverse => .blockTail (f program) (inverse.map f)
  | .element found children => .element (found.map f) (children.map f)

namespace Typing

variable {t : Typing} {input moved behind reached : Input}

/-- Where an offset before or behind the token lies after typing. -/
def shift (t : Typing) (offset : Nat) : Nat :=
  if offset ≤ t.start then offset else offset + t.typed.length

/-- What a span covers after typing. -/
def shiftSpan (t : Typing) (span : Span) : Span := ⟨t.shift span.start, t.shift span.stop⟩

/-- The span of the token. -/
def span (t : Typing) : Span := ⟨t.start, t.stop⟩

/-- The layer of a node after typing, which is `fresh` for the token. -/
def respell (t : Typing) (fresh : Layer (Node Span)) (place : Option Span)
    (layer : Layer (Node Span)) : Layer (Node Span) :=
  if place = some t.span ∧ (spelling? layer).isSome then fresh else layer

/-- A tree after typing. -/
def retype (t : Typing) (fresh : Layer (Node Span)) : Node Span → Node Span :=
  Node.fold fun place layer => .mk (place.map t.shiftSpan) (t.respell fresh place layer)

variable {fresh : Layer (Node Span)} {layer : Layer (Node Span)}

theorem retype_mk (place : Option Span) : t.retype fresh (.mk place layer) =
    .mk (place.map t.shiftSpan) (t.respell fresh place (layer.map (t.retype fresh))) := by
  rw [retype, Node.fold_mk]

@[simp] theorem range_retype (node : Node Span) :
    (t.retype fresh node).range = node.range.map t.shiftSpan := by
  cases node
  rw [retype_mk]
  rfl

/-- What has no spelling keeps its kind. -/
theorem layer_retype {node : Node Span} (plain : spelling? node.layer = none) :
    (t.retype fresh node).layer = node.layer.map (t.retype fresh) := by
  obtain ⟨place, layer⟩ := node
  have unspelled : spelling? (layer.map (t.retype fresh)) = none := by rw [spelling?_map]; exact plain
  rw [retype_mk]
  simp [Node.layer, respell, unspelled]

/-- What lies elsewhere keeps its kind. -/
theorem layer_retype_of_ne {node : Node Span} (elsewhere : node.range ≠ some t.span) :
    (t.retype fresh node).layer = node.layer.map (t.retype fresh) := by
  obtain ⟨place, layer⟩ := node
  rw [retype_mk]
  exact if_neg fun same => elsewhere same.1

theorem Carried.shift_offset (quiet : t.Quiet) (carried : t.Carried input moved) :
    moved.offset = t.shift input.offset := by
  have nonempty := quiet.start_lt_stop
  unfold shift
  rcases carried.le_start_or with ⟨early, same⟩ | ⟨late, same⟩
  · rw [if_pos early, same]
  · rw [if_neg (by omega), same]

section Between
variable (quiet : t.Quiet) (first : t.Carried input moved) (last : t.Carried behind reached)
include quiet first last

private theorem shiftSpan_between :
    t.shiftSpan ⟨input.offset, behind.offset⟩ = ⟨moved.offset, reached.offset⟩ := by
  rw [shiftSpan, first.shift_offset quiet, last.shift_offset quiet]

/-- What was read without a spelling is read again with the parts as they are after typing. -/
theorem retype_between (plain : spelling? layer = none) : t.retype fresh (.between input behind layer) =
    .between moved reached (layer.map (t.retype fresh)) := by
  have unspelled : spelling? (layer.map (t.retype fresh)) = none := by rw [spelling?_map, plain]
  simp only [Node.between, retype_mk, Option.map_some, shiftSpan_between quiet first last, respell,
    unspelled, Option.isSome_none, Bool.false_eq_true, and_false, ↓reduceIte]

/-- What was read elsewhere is read again. -/
theorem retype_between_of_clear (clear : t.Clear input behind) :
    t.retype fresh (.between input behind layer) =
      .between moved reached (layer.map (t.retype fresh)) := by
  have elsewhere : (⟨input.offset, behind.offset⟩ : Span) ≠ t.span := by
    intro same
    obtain ⟨begins, ends⟩ := Span.mk.inj same
    have nonempty := quiet.start_lt_stop
    unfold Clear at clear
    omega
  simp only [Node.between, retype_mk, Option.map_some, shiftSpan_between quiet first last, respell,
    Option.some.injEq, elsewhere, false_and, ↓reduceIte]

end Between

/-- The node of all named arguments after typing. -/
theorem retype_hashOf (pairs : List (Node Span)) :
    t.retype fresh (hashOf pairs) = hashOf (pairs.map (t.retype fresh)) := by
  have head : (pairs.map (t.retype fresh)).head?.bind Node.range =
      (pairs.head?.bind Node.range).map t.shiftSpan := by
    cases pairs <;> simp
  have tail : (pairs.map (t.retype fresh)).getLast?.bind Node.range =
      (pairs.getLast?.bind Node.range).map t.shiftSpan := by
    rw [List.getLast?_map]
    cases pairs.getLast? <;> simp
  have unspelled : spelling? (Layer.hash (pairs.map (t.retype fresh))) = none := rfl
  rw [hashOf, hashOf, retype_mk, head, tail]
  simp only [Layer.map, respell, unspelled, Option.isSome_none, Bool.false_eq_true, and_false,
    ↓reduceIte]
  congr 1
  cases pairs.head?.bind Node.range <;> cases pairs.getLast?.bind Node.range <;> rfl

private theorem unlike_text_of_spelled (spelled : (spelling? layer).isSome = true)
    (node : Node Span) (same : node.layer = layer) :
    isMustache node = false ∧ textOf node = none := by
  subst same
  unfold isMustache textOf
  cases layer : node.layer with
  | path | stringLiteral => exact ⟨rfl, rfl⟩
  | _ =>
    rw [layer] at spelled
    cases spelled

private theorem isMustache_retype (spelled : (spelling? fresh).isSome = true) (node : Node Span) :
    isMustache (t.retype fresh node) = isMustache node ∧
      textOf (t.retype fresh node) = textOf node := by
  obtain ⟨place, layer⟩ := node
  by_cases token : place = some t.span ∧ (spelling? layer).isSome = true
  · have here := unlike_text_of_spelled token.2 (.mk place layer) rfl
    have again := unlike_text_of_spelled spelled (t.retype fresh (.mk place layer)) (by
      rw [retype_mk]
      exact if_pos (by rwa [spelling?_map]))
    rw [here.1, here.2, again.1, again.2]
    exact ⟨rfl, rfl⟩
  · have kept : (t.retype fresh (.mk place layer)).layer = layer.map (t.retype fresh) := by
      rw [retype_mk]
      exact if_neg (by rwa [spelling?_map])
    unfold isMustache textOf
    rw [kept]
    cases layer <;> exact ⟨rfl, rfl⟩

/-- A quoted value after typing. -/
theorem quotedValue_retype (spelled : (spelling? fresh).isSome = true)
    (pieces : List (Node Span)) :
    (quotedValue pieces).map (t.retype fresh) = quotedValue (pieces.map (t.retype fresh)) := by
  have invoked : (pieces.map (t.retype fresh)).any isMustache = pieces.any isMustache := by
    simp [List.any_map, Function.comp_def, isMustache_retype spelled]
  have text : (pieces.map (t.retype fresh)).head?.bind textOf = pieces.head?.bind textOf := by
    cases pieces with
    | nil => rfl
    | cons piece rest => exact (isMustache_retype spelled piece).2
  unfold quotedValue
  rw [invoked, text]
  split <;> rfl

end Typing

end EmberAssist.Template
