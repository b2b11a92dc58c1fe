import EmberAssist.Template.Layer
import EmberAssist.Position

/-! Template trees. A node is a layer over nodes together with the part of the text it came from,
which some nodes lack. -/
namespace EmberAssist.Template

/-- A template tree whose nodes are placed in the text by a `ρ`: spans of offsets right after
parsing, ranges of positions afterwards. -/
inductive Node (ρ : Type) where
  | mk (range : Option ρ) (layer : Layer (Node ρ))
deriving Repr

namespace Node

variable {ρ σ : Type}

instance : Inhabited (Node ρ) := ⟨⟨none, .nullLiteral⟩⟩

/-- The part of the text that the node came from. -/
def range : Node ρ → Option ρ
  | mk range _ => range

/-- What the node is. -/
def layer : Node ρ → Layer (Node ρ)
  | mk _ layer => layer

/-- The children of a node in the order in which they are visited. -/
def children (node : Node ρ) : List (Node ρ) := node.layer.children

/-! ## Folding -/

mutual

/-- Folds a tree from its leaves: a node's value is made of its place and of its layer over the values
of its children. -/
def fold {β : Type} (f : Option ρ → Layer β → β) : Node ρ → β
  | mk range layer => f range (foldLayer f layer)

/-- Folds the children of a layer. -/
def foldLayer {β : Type} (f : Option ρ → Layer β → β) : Layer (Node ρ) → Layer β
  | .template body params => .template (foldAll f body) params
  | .block body params => .block (foldAll f body) params
  | .element tag closed attributes modifiers comments params inner =>
    .element tag closed (foldAll f attributes) (foldAll f modifiers) (foldAll f comments) params
      (foldAll f inner)
  | .attr name value => .attr name (fold f value)
  | .concat parts => .concat (foldAll f parts)
  | .mustache call trusting => .mustache (foldCall f call) trusting
  | .blockCall call program inverse =>
    .blockCall (foldCall f call) (fold f program) (foldOption f inverse)
  | .modifier call => .modifier (foldCall f call)
  | .subExpression call => .subExpression (foldCall f call)
  | .hash pairs => .hash (foldAll f pairs)
  | .hashPair key value => .hashPair key (fold f value)
  | .path spelling parts data => .path spelling parts data
  | .stringLiteral value spelling => .stringLiteral value spelling
  | .numberLiteral value spelling => .numberLiteral value spelling
  | .booleanLiteral value => .booleanLiteral value
  | .nullLiteral => .nullLiteral
  | .undefinedLiteral => .undefinedLiteral
  | .text chars => .text chars
  | .comment value => .comment value
  | .mustacheComment value => .mustacheComment value

/-- Folds the parts of an invocation. -/
def foldCall {β : Type} (f : Option ρ → Layer β → β) : Call (Node ρ) → Call β
  | ⟨callee, params, hash⟩ => ⟨fold f callee, foldAll f params, fold f hash⟩

/-- Folds every node of a list. -/
def foldAll {β : Type} (f : Option ρ → Layer β → β) : List (Node ρ) → List β
  | [] => []
  | node :: nodes => fold f node :: foldAll f nodes

/-- Folds a node that may be missing. -/
def foldOption {β : Type} (f : Option ρ → Layer β → β) : Option (Node ρ) → Option β
  | none => none
  | some node => some (fold f node)

end

theorem foldAll_eq_map {β : Type} (f : Option ρ → Layer β → β) (nodes : List (Node ρ)) :
    foldAll f nodes = nodes.map (fold f) := by
  induction nodes with
  | nil => simp [foldAll]
  | cons node nodes ih => simp [foldAll, ih]

theorem foldOption_eq_map {β : Type} (f : Option ρ → Layer β → β) (node : Option (Node ρ)) :
    foldOption f node = node.map (fold f) := by
  cases node <;> simp [foldOption]

theorem foldCall_eq {β : Type} (f : Option ρ → Layer β → β) (call : Call (Node ρ)) :
    foldCall f call = ⟨fold f call.callee, call.params.map (fold f), fold f call.hash⟩ := by
  cases call
  simp [foldCall, foldAll_eq_map]

/-- Folding a layer is mapping the fold over its children. -/
theorem foldLayer_eq_map {β : Type} (f : Option ρ → Layer β → β) (layer : Layer (Node ρ)) :
    foldLayer f layer = layer.map (fold f) := by
  cases layer <;> simp [foldLayer, Layer.map, foldCall_eq, foldAll_eq_map, foldOption_eq_map]

/-- The one equation of folding. -/
theorem fold_mk {β : Type} (f : Option ρ → Layer β → β) (range : Option ρ)
    (layer : Layer (Node ρ)) :
    fold f (mk range layer) = f range (layer.map (fold f)) := by
  rw [fold, foldLayer_eq_map]

/-- The same tree with its nodes placed in another way. -/
def mapRange (f : ρ → σ) : Node ρ → Node σ :=
  fold fun range layer => mk (range.map f) layer

/-- Mapping places moves to the children unchanged. -/
theorem mapRange_mk (f : ρ → σ) (range : Option ρ) (layer : Layer (Node ρ)) :
    mapRange f (mk range layer) = mk (range.map f) (layer.map (mapRange f)) := by
  rw [mapRange, fold_mk]

/-! ## Size -/

variable [SizeOf ρ]

/-- A child found in a slot of an invocation is smaller than whatever holds the invocation. -/
theorem sizeOf_lt_of_mem_callSlots {call : Call (Node ρ)} {slot : Slot} {child : Node ρ}
    (held : (slot, child) ∈ Layer.callSlots call) : sizeOf child < sizeOf call := by
  cases call with
  | mk callee params hash =>
    simp only [Layer.callSlots, numbered, List.mem_cons, List.mem_append, List.mem_map,
      Prod.mk.injEq, List.not_mem_nil, or_false, Prod.exists] at held
    simp only [Call.mk.sizeOf_spec]
    rcases held with ⟨_, rfl⟩ | ⟨item, index, member, _, rfl⟩ | ⟨_, rfl⟩
    · omega
    · have member : item ∈ params := List.fst_mem_of_mem_zipIdx member
      have := List.sizeOf_lt_of_mem member
      omega
    · omega

private theorem sizeOf_lt_of_mem_numbered {slots : Nat → Slot} {items : List (Node ρ)} {slot : Slot}
    {child : Node ρ} (held : (slot, child) ∈ numbered slots items) :
    sizeOf child < sizeOf items := by
  simp only [numbered, List.mem_map, Prod.mk.injEq, Prod.exists] at held
  obtain ⟨item, index, member, _, rfl⟩ := held
  exact List.sizeOf_lt_of_mem (List.fst_mem_of_mem_zipIdx member)

/-- A child found in a slot of a layer is smaller than the layer, which is why descents through a
tree end. -/
theorem sizeOf_lt_of_mem_slots {layer : Layer (Node ρ)} {slot : Slot} {child : Node ρ}
    (held : (slot, child) ∈ layer.slots) : sizeOf child < sizeOf layer := by
  cases layer <;> simp only [Layer.slots, List.not_mem_nil] at held
  case template => have := sizeOf_lt_of_mem_numbered held; simp; omega
  case block => have := sizeOf_lt_of_mem_numbered held; simp; omega
  case concat => have := sizeOf_lt_of_mem_numbered held; simp; omega
  case hash => have := sizeOf_lt_of_mem_numbered held; simp; omega
  case mustache => have := sizeOf_lt_of_mem_callSlots held; simp; omega
  case modifier => have := sizeOf_lt_of_mem_callSlots held; simp; omega
  case subExpression => have := sizeOf_lt_of_mem_callSlots held; simp; omega
  case attr name value =>
    obtain ⟨-, rfl⟩ : slot = .value ∧ child = value := by simpa using held
    rw [Layer.attr.sizeOf_spec]
    omega
  case hashPair key value =>
    obtain ⟨-, rfl⟩ : slot = .value ∧ child = value := by simpa using held
    rw [Layer.hashPair.sizeOf_spec]
    omega
  case element =>
    simp only [List.mem_append] at held
    rcases held with ((held | held) | held) | held <;>
      have := sizeOf_lt_of_mem_numbered held <;> simp <;> omega
  case blockCall call program inverse =>
    simp only [List.mem_append, List.mem_cons, Prod.mk.injEq, Option.mem_toList,
      Option.map_eq_some_iff] at held
    rcases held with held | ⟨_, rfl⟩ | ⟨block, found, _, rfl⟩
    · have := sizeOf_lt_of_mem_callSlots held; simp; omega
    · simp; omega
    · subst found; simp; omega

/-- A child is smaller than the node that holds it. -/
theorem sizeOf_lt_of_mem_children {node child : Node ρ} (held : child ∈ node.children) :
    sizeOf child < sizeOf node := by
  cases node with
  | mk range layer =>
    simp only [children, Node.layer, Layer.children, List.mem_map, Prod.exists] at held
    obtain ⟨slot, child, member, rfl⟩ := held
    have := sizeOf_lt_of_mem_slots member
    simp; omega

end Node

end EmberAssist.Template
