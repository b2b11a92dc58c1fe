import Mathlib.Data.List.Nodup
import EmberAssist.Template.Node

/-! Places in a tree. A node is found by the slots through which one descends to it, and no two
children of a node stand in the same slot. -/
namespace EmberAssist.Template

variable {α β ρ σ : Type}

theorem numbered_map (slot : Nat → Slot) (f : α → β) (items : List α) :
    numbered slot (items.map f) = (numbered slot items).map fun (slot, item) => (slot, f item) := by
  simp [numbered, List.zipIdx_map]

theorem map_snd_numbered (slot : Nat → Slot) (items : List α) :
    (numbered slot items).map Prod.snd = items := by
  simp [numbered, Function.comp_def]

private theorem map_fst_numbered (slot : Nat → Slot) (items : List α) :
    (numbered slot items).map Prod.fst = (List.range items.length).map slot := by
  have indices : items.zipIdx.map Prod.snd = List.range items.length := by
    simp [List.range_eq_range']
  rw [← indices, numbered, List.map_map, List.map_map]
  rfl

private theorem nodup_numbered {slot : Nat → Slot} (distinct : Function.Injective slot)
    (items : List α) : ((numbered slot items).map Prod.fst).Nodup := by
  rw [map_fst_numbered]
  exact List.nodup_range.map distinct

private theorem mem_fst_numbered {slot : Nat → Slot} {items : List α} {held : Slot}
    (member : held ∈ (numbered slot items).map Prod.fst) : ∃ index, held = slot index := by
  rw [map_fst_numbered] at member
  obtain ⟨index, -, same⟩ := List.mem_map.mp member
  exact ⟨index, same.symm⟩

/-- The nodes of an invocation in order. -/
def Call.nodes (call : Call α) : List α := call.callee :: (call.params ++ [call.hash])

namespace Layer

/-! ## The children of a layer -/

@[simp] theorem children_template (body : List α) (params : List String) :
    (template body params).children = body := map_snd_numbered _ _

@[simp] theorem children_block (body : List α) (params : List String) :
    (block body params).children = body := map_snd_numbered _ _

@[simp] theorem children_element (tag : String) (closed : Bool)
    (attributes modifiers comments : List α) (params : List String) (inner : List α) :
    (element tag closed attributes modifiers comments params inner).children =
      attributes ++ modifiers ++ comments ++ inner := by
  simp only [children, slots, List.map_append, map_snd_numbered]

@[simp] theorem children_concat (parts : List α) : (concat parts).children = parts :=
  map_snd_numbered _ _

@[simp] theorem children_hash (pairs : List α) : (hash pairs).children = pairs :=
  map_snd_numbered _ _

@[simp] theorem children_attr (name : String) (value : α) : (attr name value).children = [value] :=
  rfl

@[simp] theorem children_hashPair (key : String) (value : α) :
    (hashPair key value).children = [value] := rfl

private theorem map_snd_callSlots (call : Call α) : (callSlots call).map Prod.snd = call.nodes := by
  simp only [callSlots, Call.nodes, List.map_cons, List.map_append, map_snd_numbered, List.map_nil]

@[simp] theorem children_mustache (call : Call α) (trusting : Bool) :
    (mustache call trusting).children = call.nodes := map_snd_callSlots call

@[simp] theorem children_modifier (call : Call α) : (modifier call).children = call.nodes :=
  map_snd_callSlots call

@[simp] theorem children_subExpression (call : Call α) :
    (subExpression call).children = call.nodes := map_snd_callSlots call

@[simp] theorem children_blockCall (call : Call α) (program : α) (inverse : Option α) :
    (blockCall call program inverse).children = call.nodes ++ program :: inverse.toList := by
  simp only [children, slots, List.map_append, List.map_cons]
  exact congrArg₂ _ (map_snd_callSlots call) (by cases inverse <;> rfl)

/-! ## Other children -/

/-- Changing the children of a layer depends on its children only. -/
theorem map_congr {f g : α → β} {layer : Layer α}
    (same : ∀ child ∈ layer.children, f child = g child) : layer.map f = layer.map g := by
  cases layer with
  | blockCall call program inverse =>
    cases inverse <;> simp_all [map, Call.nodes]
  | _ => simp_all [map, Call.nodes]

theorem callSlots_map (f : α → β) (call : Call α) :
    callSlots ⟨f call.callee, call.params.map f, f call.hash⟩ =
      (callSlots call).map fun (slot, child) => (slot, f child) := by
  simp [callSlots, numbered_map]

/-- Changing the children of a layer keeps the slots they stand in. -/
theorem slots_map (f : α → β) (layer : Layer α) :
    (layer.map f).slots = layer.slots.map fun (slot, child) => (slot, f child) := by
  cases layer with
  | blockCall call program inverse => cases inverse <;> simp [map, slots, callSlots_map]
  | _ => simp [map, slots, numbered_map, callSlots_map]

theorem children_map (f : α → β) (layer : Layer α) :
    (layer.map f).children = layer.children.map f := by
  simp [children, slots_map, Function.comp_def]

theorem map_id (layer : Layer α) : layer.map id = layer := by
  cases layer <;> simp [map]

theorem map_map {γ : Type} (g : β → γ) (f : α → β) (layer : Layer α) :
    (layer.map f).map g = layer.map (g ∘ f) := by
  cases layer <;> simp [map, Function.comp_def]

theorem typeName_map (f : α → β) (layer : Layer α) : (layer.map f).typeName = layer.typeName := by
  cases layer <;> rfl

/-! ## Slots -/

private theorem nodup_callSlots (call : Call α) : ((callSlots call).map Prod.fst).Nodup := by
  have params : ((numbered Slot.params call.params).map Prod.fst).Nodup :=
    nodup_numbered (fun _ _ => by simp) call.params
  simp only [callSlots, List.map_cons, List.map_append, List.map_nil, List.nodup_cons,
    List.nodup_append, List.mem_append, List.mem_singleton]
  refine ⟨?_, params, by simp, ?_⟩
  · rintro (member | same)
    · obtain ⟨index, same⟩ := mem_fst_numbered member
      cases same
    · cases same
  · rintro slot member other rfl rfl
    obtain ⟨index, same⟩ := mem_fst_numbered member
    cases same

/-- No two children of a layer stand in the same slot. -/
theorem nodup_slots (layer : Layer α) : (layer.slots.map Prod.fst).Nodup := by
  cases layer with
  | template body params => exact nodup_numbered (fun _ _ => by simp) body
  | block body params => exact nodup_numbered (fun _ _ => by simp) body
  | concat parts => exact nodup_numbered (fun _ _ => by simp) parts
  | hash pairs => exact nodup_numbered (fun _ _ => by simp) pairs
  | mustache call trusting => exact nodup_callSlots call
  | modifier call => exact nodup_callSlots call
  | subExpression call => exact nodup_callSlots call
  | blockCall call program inverse =>
    have apart : ∀ slot ∈ (callSlots call).map Prod.fst, slot ≠ .program ∧ slot ≠ .inverse := by
      intro slot member
      simp only [callSlots, List.map_cons, List.map_append, List.map_nil, List.mem_cons,
        List.mem_append, List.not_mem_nil, or_false] at member
      rcases member with rfl | member | rfl
      · simp
      · obtain ⟨index, rfl⟩ := mem_fst_numbered member
        simp
      · simp
    have tail : ((Slot.program, program) ::
        (inverse.map fun block => (Slot.inverse, block)).toList).map Prod.fst |>.Nodup := by
      cases inverse <;> simp
    simp only [slots, List.map_append]
    refine List.nodup_append.mpr ⟨nodup_callSlots call, tail, ?_⟩
    rintro slot member other otherMember rfl
    obtain ⟨notProgram, notInverse⟩ := apart slot member
    cases inverse <;> simp [notProgram, notInverse] at otherMember
  | element tag closed attributes modifiers comments params inner =>
    simp only [slots, List.map_append]
    refine List.nodup_append.mpr ⟨List.nodup_append.mpr ⟨List.nodup_append.mpr
      ⟨nodup_numbered (fun _ _ => by simp) attributes, nodup_numbered (fun _ _ => by simp) modifiers,
        ?_⟩, nodup_numbered (fun _ _ => by simp) comments, ?_⟩,
      nodup_numbered (fun _ _ => by simp) inner, ?_⟩
    all_goals
      rintro slot member other otherMember rfl
      obtain ⟨index, rfl⟩ := mem_fst_numbered otherMember
    · obtain ⟨_, same⟩ := mem_fst_numbered member
      cases same
    all_goals simp only [List.mem_append] at member
    · rcases member with member | member <;>
        obtain ⟨_, same⟩ := mem_fst_numbered member <;> cases same
    · rcases member with (member | member) | member <;>
        obtain ⟨_, same⟩ := mem_fst_numbered member <;> cases same
  | _ => simp [slots]

/-- What stands in a slot of a layer is found there. -/
theorem lookup_slots_eq_some {layer : Layer α} {slot : Slot} {child : α} :
    layer.slots.lookup slot = some child ↔ (slot, child) ∈ layer.slots := by
  have distinct := layer.nodup_slots
  generalize layer.slots = slots at distinct ⊢
  induction slots with
  | nil => simp
  | cons entry rest ih =>
    obtain ⟨other, item⟩ := entry
    simp only [List.map_cons, List.nodup_cons] at distinct
    by_cases same : slot = other
    · subst same
      have absent : (slot, child) ∉ rest := fun member =>
        distinct.1 (List.mem_map.mpr ⟨_, member, rfl⟩)
      simp [absent, eq_comm]
    · have other : (slot == other) = false := by simpa using same
      simp [List.lookup_cons, other, ih distinct.2, same]

end Layer

namespace Node

/-- The child of a node in a slot. -/
def child? (node : Node ρ) (slot : Slot) : Option (Node ρ) := node.layer.slots.lookup slot

/-- The node that is reached through some slots, one after the other. -/
def at? : Node ρ → List Slot → Option (Node ρ)
  | node, [] => some node
  | node, slot :: address => (node.child? slot).bind fun child => child.at? address

theorem child?_eq_some {node child : Node ρ} {slot : Slot} :
    node.child? slot = some child ↔ (slot, child) ∈ node.layer.slots :=
  Layer.lookup_slots_eq_some

theorem mem_children_of_child? {node child : Node ρ} {slot : Slot}
    (found : node.child? slot = some child) : child ∈ node.children :=
  List.mem_map.mpr ⟨_, child?_eq_some.mp found, rfl⟩

@[simp] theorem at?_nil (node : Node ρ) : node.at? [] = some node := rfl

theorem at?_cons (node : Node ρ) (slot : Slot) (address : List Slot) :
    node.at? (slot :: address) = (node.child? slot).bind fun child => child.at? address := rfl

theorem at?_append (node : Node ρ) (address below : List Slot) :
    node.at? (address ++ below) = (node.at? address).bind fun reached => reached.at? below := by
  induction address generalizing node with
  | nil => rfl
  | cons slot address ih =>
    rw [List.cons_append, at?_cons, at?_cons]
    cases node.child? slot with
    | none => rfl
    | some child => exact ih child

/-- A node is part of another if it is found somewhere in it. -/
def Holds (node part : Node ρ) : Prop := ∃ address, node.at? address = some part

theorem Holds.self (node : Node ρ) : node.Holds node := ⟨[], rfl⟩

theorem Holds.trans {node part below : Node ρ} (holds : node.Holds part) (inside : part.Holds below) :
    node.Holds below := by
  obtain ⟨address, found⟩ := holds
  obtain ⟨further, reached⟩ := inside
  exact ⟨address ++ further, by rw [at?_append, found]; exact reached⟩

theorem holds_iff {node part : Node ρ} :
    node.Holds part ↔ part = node ∨ ∃ child ∈ node.children, child.Holds part := by
  constructor
  · rintro ⟨address, found⟩
    cases address with
    | nil => exact .inl (Option.some.inj found).symm
    | cons slot address =>
      rw [at?_cons, Option.bind_eq_some_iff] at found
      obtain ⟨child, held, found⟩ := found
      exact .inr ⟨child, mem_children_of_child? held, address, found⟩
  · rintro (rfl | ⟨child, member, address, found⟩)
    · exact Holds.self part
    · obtain ⟨⟨slot, child⟩, held, rfl⟩ := List.mem_map.mp member
      exact ⟨slot :: address, by rw [at?_cons, child?_eq_some.mpr held]; exact found⟩

@[simp] theorem range_mapRange (f : ρ → σ) (node : Node ρ) :
    (node.mapRange f).range = node.range.map f := by
  cases node
  rw [mapRange_mk]
  rfl

@[simp] theorem layer_mapRange (f : ρ → σ) (node : Node ρ) :
    (node.mapRange f).layer = node.layer.map (mapRange f) := by
  cases node
  rw [mapRange_mk]
  rfl

theorem child?_mapRange (f : ρ → σ) (node : Node ρ) (slot : Slot) :
    (node.mapRange f).child? slot = (node.child? slot).map (mapRange f) := by
  simp only [child?, layer_mapRange, Layer.slots_map]
  induction node.layer.slots with
  | nil => rfl
  | cons entry rest ih =>
    obtain ⟨other, item⟩ := entry
    by_cases same : slot == other <;> simp [List.lookup_cons, same, ih]

/-- What holds of every node whose children it holds of holds of all nodes. -/
theorem induction {P : Node ρ → Prop}
    (step : ∀ node : Node ρ, (∀ child ∈ node.children, P child) → P node) (node : Node ρ) : P node :=
  step node fun child _member => induction step child
termination_by node
decreasing_by exact sizeOf_lt_of_mem_children _member

theorem mapRange_mapRange {τ : Type} (g : σ → τ) (f : ρ → σ) (node : Node ρ) :
    (node.mapRange f).mapRange g = node.mapRange (g ∘ f) := by
  induction node using Node.induction with
  | step node ih =>
    obtain ⟨range, layer⟩ := node
    rw [mapRange_mk, mapRange_mk, mapRange_mk, Layer.map_map, Option.map_map]
    exact congrArg _ (Layer.map_congr ih)

theorem mapRange_id (node : Node ρ) : node.mapRange id = node := by
  induction node using Node.induction with
  | step node ih =>
    obtain ⟨range, layer⟩ := node
    have same : layer.map (mapRange id) = layer.map id := Layer.map_congr ih
    rw [mapRange_mk, same, Option.map_id, Layer.map_id]
    rfl

/-- Placing the nodes of a tree in another way keeps their addresses. -/
theorem at?_mapRange (f : ρ → σ) (node : Node ρ) (address : List Slot) :
    (node.mapRange f).at? address = (node.at? address).map (mapRange f) := by
  induction address generalizing node with
  | nil => rfl
  | cons slot address ih =>
    rw [at?_cons, at?_cons, child?_mapRange]
    cases node.child? slot with
    | none => rfl
    | some child => exact ih child

end Node

end EmberAssist.Template
