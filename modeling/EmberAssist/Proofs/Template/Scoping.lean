import EmberAssist.Template.Scope
import EmberAssist.Proofs.Template.BlockNames

/-! Names that a template declares. The trail to a position leaves out the nodes without a place, yet no
declaration is lost: whatever declares a name has a place, so the names in scope at the end of a trail
are those that the nodes above it declare. -/
namespace EmberAssist.Template

open Node

/-- The tag of an element. -/
def Layer.elementTag? {α : Type} : Layer α → Option String
  | .element tag .. => some tag
  | _ => none

@[simp] theorem Layer.declared_map {α β : Type} (f : α → β) (layer : Layer α) :
    (layer.map f).declared = layer.declared := by
  cases layer <;> rfl

/-! ## The nodes above an address -/

namespace Node

section Above
variable {ρ : Type} {node part outer : Node ρ} {address : List Slot} {name : String} {index : Nat}

/-- The nodes above an address, from the root down. -/
def above : Node ρ → List Slot → List (Node ρ)
  | _, [] => []
  | node, slot :: address =>
    node :: ((node.child? slot).map fun child => child.above address).getD []

theorem mem_above (reached : (node.at? address).isSome) : outer ∈ node.above address ↔
    ∃ front slot rest, address = front ++ slot :: rest ∧ node.at? front = some outer := by
  induction address generalizing node with
  | nil => simp [above]
  | cons slot address ih =>
    rw [at?_cons] at reached
    obtain ⟨child, held⟩ : ∃ child, node.child? slot = some child := by
      cases held : node.child? slot with
      | none => simp [held] at reached
      | some child => exact ⟨child, rfl⟩
    rw [held] at reached
    rw [above, held, Option.map_some, Option.getD_some, List.mem_cons, ih reached]
    constructor
    · rintro (rfl | ⟨front, next, rest, rfl, found⟩)
      · exact ⟨[], slot, address, rfl, rfl⟩
      · exact ⟨slot :: front, next, rest, rfl, by rw [at?_cons, held]; exact found⟩
    -- What is above the address is the node itself or stands above the rest of it in the child.
    · rintro ⟨front, next, rest, cut, found⟩
      cases front with
      | nil => exact .inl (Option.some.inj found).symm
      | cons first front =>
        obtain ⟨rfl, same⟩ := List.cons.inj cut
        rw [at?_cons, held] at found
        exact .inr ⟨front, next, rest, same, found⟩

/-- The block parameters that a node declares, each with its number and the node. -/
def declarations (node : Node ρ) : List (String × Nat × Node ρ) :=
  node.layer.declared.zipIdx.map fun (name, index) => (name, index, node)

theorem mem_declarations : (name, index, outer) ∈ node.declarations ↔
    node.layer.declared[index]? = some name ∧ node = outer := by
  simp [declarations, List.mem_zipIdx_iff_getElem?]

private theorem find?_declarations (node : Node ρ) (name : String) :
    (node.declarations.find? (·.1 = name)).map (·.2.2) =
      if name ∈ node.layer.declared then some node else none := by
  cases found : node.declarations.find? (·.1 = name) with
  | none =>
    rw [List.find?_eq_none] at found
    rw [Option.map_none, if_neg]
    intro member
    obtain ⟨index, here⟩ := List.getElem?_of_mem member
    exact found (name, index, node) (mem_declarations.mpr ⟨here, rfl⟩) (by simp)
  | some declaration =>
    obtain ⟨other, index, outer⟩ := declaration
    obtain rfl : other = name := by simpa using List.find?_some found
    obtain ⟨here, rfl⟩ := mem_declarations.mp (List.mem_of_find?_eq_some found)
    rw [Option.map_some, if_pos (List.mem_of_getElem? here)]

/-- The first of the declarations of a name is that of the first node that declares it. -/
theorem find?_flatMap_declarations (nodes : List (Node ρ)) (name : String) :
    ((nodes.flatMap declarations).find? (·.1 = name)).map (·.2.2) =
      nodes.find? (name ∈ ·.layer.declared) := by
  induction nodes with
  | nil => rfl
  | cons node nodes ih =>
    have here := find?_declarations node name
    rw [List.flatMap_cons, List.find?_append, List.find?_cons]
    by_cases member : name ∈ node.layer.declared
    · rw [if_pos member, Option.map_eq_some_iff] at here
      obtain ⟨declaration, found, same⟩ := here
      simp [found, same, member]
    · rw [if_neg member, Option.map_eq_none_iff] at here
      rw [here, Option.none_or, ih, decide_eq_false member]

/-- A node is no smaller than its parts. -/
theorem sizeOf_le_of_at? [SizeOf ρ] (found : node.at? address = some part) :
    sizeOf part ≤ sizeOf node := by
  induction address generalizing node with
  | nil =>
    cases found
    exact le_refl _
  | cons slot address ih =>
    obtain ⟨child, held, found⟩ := Option.bind_eq_some_iff.mp found
    exact (ih found).trans (sizeOf_lt_of_mem_children (mem_children_of_child? held)).le

end Above

/-! ## Trails along an address -/

section Along
variable {node part : Node Range} {address : List Slot} {slots : List Slot}

/-- A trail along an address visits the placed nodes above it and the node at its end. -/
theorem map_node_along (found : node.at? address = some part) (placed : part.range.isSome) :
    (node.along slots address).map Visit.node =
      (node.above address).filter (·.range.isSome) ++ [part] := by
  induction address generalizing node slots with
  | nil =>
    cases found
    simp [along, above, visitOf, placed]
  | cons slot address ih =>
    obtain ⟨child, held, found⟩ := Option.bind_eq_some_iff.mp found
    rw [along, above, held, Option.map_some, Option.map_some, Option.getD_some, Option.getD_some,
      List.map_append, ih found, List.filter_cons]
    cases here : node.range <;> simp [visitOf, here]

/-- A trail along an address is one along an address that ends in a placed node. -/
theorem exists_along_placed (reached : (node.at? address).isSome)
    (filled : node.along slots address ≠ []) : ∃ front part, node.at? front = some part ∧
      part.range.isSome ∧ node.along slots address = node.along slots front := by
  induction address generalizing node slots with
  | nil =>
    refine ⟨[], node, rfl, ?_, rfl⟩
    by_contra unplaced
    simp [along, visitOf, unplaced] at filled
  | cons slot address ih =>
    rw [at?_cons] at reached
    obtain ⟨part, found⟩ := Option.isSome_iff_exists.mp reached
    obtain ⟨child, held, found⟩ := Option.bind_eq_some_iff.mp found
    have below : node.along slots (slot :: address) =
        node.visitOf slots ++ child.along (node.slotsBelow slot) address := by
      rw [along, held]
      rfl
    by_cases ends : child.along (node.slotsBelow slot) address = []
    · rw [below, ends, List.append_nil] at filled ⊢
      refine ⟨[], node, rfl, ?_, rfl⟩
      by_contra unplaced
      simp [visitOf, unplaced] at filled
    · obtain ⟨front, part, found, placed, same⟩ := ih (by rw [found]; rfl) ends
      refine ⟨slot :: front, part, by rw [at?_cons, held]; exact found, placed, ?_⟩
      rw [below, same, along, held]
      rfl

end Along

end Node

/-! ## What a trail says of names -/

namespace Trail

variable {trail : Trail (Node Range)} {visit : Visit (Node Range)} {name : String}

/-- A block parameter in scope: its name, its number and the node that declares it. -/
def declarationOf (binding : Binding (Node Range)) : String × Nat × Node Range :=
  (binding.name, binding.index, binding.declaring.node)

/-- The names in scope are declared by the nodes before the focus, the nearest first. -/
theorem map_localScope (trail : Trail (Node Range)) : trail.localScope.map declarationOf =
    ((trail.visits.take trail.index.toNat).map Visit.node).reverse.flatMap Node.declarations := by
  have each (entry : Visit (Node Range) × Nat) :
      (declarations entry.1 entry.2).map declarationOf = entry.1.node.declarations := by
    simp only [declarations, List.map_map]
    rfl
  have nodes : (trail.visits.take trail.index.toNat).map Visit.node =
      (trail.visits.take trail.index.toNat).zipIdx.map fun entry => entry.1.node := by
    conv_lhs => rw [← List.zipIdx_map_fst 0 (trail.visits.take trail.index.toNat), List.map_map]
    rfl
  rw [nodes, ← List.map_reverse, List.flatMap_map, localScope, List.map_flatMap]
  exact List.flatMap_congr fun entry _ => each entry

/-- The component that is looked up for a name is the tag of what declares the name first. -/
theorem componentName?_eq (named : trail.localName? = some name) : trail.componentName? =
    (((trail.localScope.map declarationOf).find? (·.1 = name)).map (·.2.2)).bind
      fun node => node.layer.elementTag? := by
  have tag (visit : Visit (Node Range)) : tagOf visit = visit.node.layer.elementTag? := by
    obtain ⟨⟨range, layer⟩, slots⟩ := visit
    cases layer <;> rfl
  rw [componentName?, declaration?, named, Option.bind_some, List.find?_map, Option.map_map,
    Option.bind_map]
  exact congrArg _ (funext fun binding => tag binding.declaring)

theorem localName?_of_path {spelling : String} {parts : List String} {data : Bool}
    (focus : trail.focus? = some visit) (path : visit.node.layer = .path spelling (name :: parts) data)
    (other : name ≠ "this") : trail.localName? = some name := by
  have layer : trail.focus?.map Visit.layer = some (.path spelling (name :: parts) data) := by
    rw [focus, ← path]
    rfl
  rw [localName?, layer]
  exact if_neg other

end Trail

/-! ## The program of a block -/

section Program

variable {depth : Nat} {root input behind closed : Input} {name : Option String}
variable {params : List String} {call : Call (Node Span)} {inverse : Option (Node Span)}
variable {outer child part program : Node Span} {slot : Slot}

/-- What a block tag calls ends before the tag does, and the program begins where the tag ends. -/
private theorem range_ne_of_call (tag : Reads depth .blockTag input (.blockTag call params) behind)
    (tail : Reads depth (.blockTail name params) behind (.blockTail program inverse) closed)
    (member : child ∈ call.nodes) (holds : child.Holds part) : part.range ≠ program.range := by
  intro same
  obtain ⟨stop, order, begins⟩ : ∃ stop, behind.offset ≤ stop ∧
      program.range = some ⟨behind.offset, stop⟩ := by
    cases tail with
    | blockEnd body | blockElse body | blockChain body => exact ⟨_, Input.offset_le body.le, rfl⟩
  cases tag with
  | @blockTag _ _ called next _ _ _ invoked declared closes =>
    have laid : Laid _ _ call.nodes := invoked.laid
    have ends : stop ≤ called.offset := (laid.bounds member holds (same.trans begins)).2
    have gap : called ≤ next.skipTilde := (Input.le_skipBlank _).trans
      ((Input.le_of_declared declared).trans (Input.le_skipTilde _))
    have later := (Input.lt_iff.mp (gap.trans_lt (Input.lt_of_eat? closes))).2
    omega

/-- The program of a block ends where an else tag begins, and what is placed in the inverse ends behind
the begin of the tag. -/
private theorem range_ne_of_inverse
    (tail : Reads depth (.blockTail name params) input (.blockTail program (some child)) closed)
    (holds : child.Holds part) : part.range ≠ program.range := by
  intro same
  cases tail with
  | @blockElse _ _ stop _ within behind _ _ _ _ others _ body otherwise last ends otherBody =>
    have gap : input < within := (body.le.trans_lt (Input.lt_of_eatElse? otherwise)).trans_le
      ((Input.le_skipBlank _).trans ((Input.le_skipTilde _).trans (Input.le_of_eat? ends)))
    have later := (Input.lt_iff.mp gap).2
    have inside : Laid within.offset behind.offset others := otherBody.laid
    have laid : Laid _ _ [.between within behind (.block others [])] :=
      inside.around (by simp) (Input.offset_le otherBody.le)
    have first : within.offset ≤ input.offset :=
      (laid.bounds (List.mem_singleton_self _) holds same).1
    omega
  | @blockChain _ _ stop opened behind _ _ _ _ _ call program inverse body otherwise chained tag
      tail =>
    have tagged := (Input.lt_of_eatElse? otherwise).trans_le (Input.le_skipBlank opened)
    rcases holds_iff.mp holds with rfl | ⟨link, member, holds⟩
    · cases same
    obtain rfl : link = .between stop closed (.blockCall call program inverse) := by
      simpa [children, layer] using member
    rcases holds_iff.mp holds with rfl | ⟨child, member, holds⟩
    · have later := (Input.lt_iff.mp (tagged.trans_le (tag.le.trans tail.le))).2
      have ends : closed.offset = stop.offset :=
        congrArg Span.stop (Option.some.inj same)
      omega
    · have later := (Input.lt_iff.mp (body.le.trans_lt tagged)).2
      have called : Laid _ behind.offset call.nodes := tag.laid
      have rest : Laid behind.offset _ (program :: inverse.toList) := tail.laid
      have laid := called.append rest (Input.offset_le tag.le) (Input.offset_le tail.le)
      have first : opened.skipBlank.offset ≤ input.offset :=
        (laid.bounds (by simpa [children, between, layer] using member) holds same).1
      omega

private theorem range_ne_of_block
    (tag : Reads depth .blockTag input (.blockTag call params) behind)
    (tail : Reads depth (.blockTail name params) behind (.blockTail program inverse) closed)
    (held : (slot, child) ∈ (Layer.blockCall call program inverse).slots)
    (elsewhere : slot ≠ .program) (holds : child.Holds part) : part.range ≠ program.range := by
  simp only [Layer.slots, List.mem_append, List.mem_cons, Prod.mk.injEq, Option.mem_toList,
    Option.map_eq_some_iff] at held
  rcases held with called | ⟨same, -⟩ | ⟨block, rfl, -, rfl⟩
  · have member : child ∈ call.nodes := by
      rw [← Layer.children_mustache call false]
      exact List.mem_map_of_mem called
    exact range_ne_of_call tag tail member holds
  · exact absurd same elsewhere
  · exact range_ne_of_inverse tail holds

/-- No part of a block beside its program came from where the program did. -/
theorem Origin.range_ne_program (origin : Origin root outer)
    (block : outer.layer = .blockCall call program inverse) (held : outer.child? slot = some child)
    (elsewhere : slot ≠ .program) (holds : child.Holds part) : part.range ≠ program.range := by
  have held := child?_eq_some.mp held
  rcases origin.hashed_or_link (by rw [block]; rfl) with
    ⟨-, -, -, tag, tail⟩ | ⟨-, -, -, tag, tail⟩
  all_goals
    cases block
    exact range_ne_of_block tag tail held elsewhere holds

end Program

/-! ## The tree of a text -/

section Parse

variable {text : String} {tree outer node program : Node Range} {p : Position}
variable {front below address : List Slot} {slot : Slot} {trail : Trail (Node Range)}
variable {call : Call (Node Range)} {inverse : Option (Node Range)}

/-- What declares a block parameter has a place. -/
theorem placed_of_declares (parsed : parse text = .ok tree) (found : tree.at? address = some node)
    (declares : node.layer.declared ≠ []) : node.range.isSome := by
  obtain ⟨spans, read, rfl⟩ := parse_eq_ok parsed
  rw [at?_mapRange, Option.map_eq_some_iff] at found
  obtain ⟨part, found, rfl⟩ := found
  rw [layer_mapRange, Layer.declared_map] at declares
  rw [range_mapRange, Option.isSome_map]
  by_contra absent
  rcases (parseSpans_origin read found).unplaced (by simpa using absent) with
    empty | empty | ⟨next, -, layer⟩
  · simp [empty, Layer.declared] at declares
  · simp [empty, Layer.declared] at declares
  · simp [layer, Layer.declared] at declares

/-- The program of a block is no part of the block that is beside it. -/
private theorem ne_program_below (parsed : parse text = .ok tree)
    (found : tree.at? front = some outer) (block : outer.layer = .blockCall call program inverse)
    (elsewhere : slot ≠ .program) (held : outer.at? (slot :: below) = some node) :
    node ≠ program := by
  obtain ⟨spans, read, rfl⟩ := parse_eq_ok parsed
  rw [at?_mapRange, Option.map_eq_some_iff] at found
  obtain ⟨outer, found, rfl⟩ := found
  rw [at?_mapRange, Option.map_eq_some_iff] at held
  obtain ⟨node, held, rfl⟩ := held
  obtain ⟨child, held, inside⟩ := Option.bind_eq_some_iff.mp held
  rw [layer_mapRange] at block
  cases layer : outer.layer <;> rw [layer] at block <;> cases block
  have apart := (parseSpans_origin read found).range_ne_program layer held elsewhere ⟨_, inside⟩
  intro same
  have ranges := congrArg Node.range same
  rw [range_mapRange, range_mapRange] at ranges
  exact apart ((Option.map_injective (Text.rangeOf_injective _)) ranges)

/-- The program of a block is not above what lies in the block beside the program. -/
private theorem ne_program_of_mem_above (parsed : parse text = .ok tree)
    (reached : (tree.at? (front ++ slot :: below)).isSome) (found : tree.at? front = some outer)
    (block : outer.layer = .blockCall call program inverse) (elsewhere : slot ≠ .program)
    (member : node ∈ tree.above (front ++ slot :: below)) : node ≠ program := by
  obtain ⟨before, next, rest, cut, here⟩ := (mem_above reached).mp member
  have smaller : sizeOf program < sizeOf outer :=
    sizeOf_lt_of_mem_children (by rw [children, block, Layer.children_blockCall]; simp)
  rcases List.append_eq_append_iff.mp cut with ⟨further, rfl, tail⟩ | ⟨further, rfl, -⟩
  · -- The node is the block or a part of it.
    rw [at?_append, found, Option.bind_some] at here
    cases further with
    | nil =>
      cases here
      rintro rfl
      exact lt_irrefl _ smaller
    | cons first further =>
      obtain ⟨rfl, -⟩ := List.cons.inj tail
      exact ne_program_below parsed found block elsewhere here
  · -- The node holds the block.
    rw [at?_append, here, Option.bind_some] at found
    rintro rfl
    exact absurd (sizeOf_le_of_at? found) smaller.not_ge

private theorem flatMap_declarations_placed {nodes : List (Node Range)}
    (placed : ∀ node ∈ nodes, node.layer.declared ≠ [] → node.range.isSome) :
    (nodes.filter (·.range.isSome)).flatMap declarations = nodes.flatMap declarations := by
  induction nodes with
  | nil => rfl
  | cons node nodes ih =>
    have rest := ih fun other member => placed other (List.mem_cons_of_mem _ member)
    rw [List.filter_cons, List.flatMap_cons, ← rest]
    split
    · rw [List.flatMap_cons]
    · rename_i unplaced
      have nothing : node.layer.declared = [] := by
        by_contra declares
        exact unplaced (placed node (by simp) declares)
      simp [declarations, nothing]

/-- The trail to a position is one along an address, with the node at its end in focus. -/
private theorem exists_along (laminar : tree.Laminar) (gives : tree.trailTo? p = some trail) :
    ∃ address visit, tree.at? address = some visit.node ∧ trail.visits = tree.along [] address ∧
      trail.focus? = some visit ∧ (trail.visits.take trail.index.toNat).map Visit.node =
        (tree.above address).filter (·.range.isSome) := by
  obtain ⟨searched, reached, alike, -⟩ := exists_searched p [] laminar
  obtain ⟨before, visit, visits, rfl⟩ := exists_visits_of_trailTo? gives
  have along := alike (by simp [visits])
  have filled : tree.along [] searched ≠ [] := by simp [← along, visits]
  obtain ⟨address, part, found, placed, same⟩ := exists_along_placed reached filled
  have whole : before ++ [visit] = tree.along [] address := visits.symm.trans (along.trans same)
  have nodes : (before ++ [visit]).map Visit.node = _ :=
    (congrArg _ whole).trans (map_node_along found placed)
  rw [List.map_append, List.map_singleton] at nodes
  obtain ⟨above, rfl⟩ : before.map Visit.node = _ ∧ visit.node = part := by
    simpa using List.append_inj' nodes rfl
  refine ⟨address, visit, found, whole, ?_, ?_⟩
  · rw [Trail.focus?, Text.item?_natCast]
    simp
  · rw [Int.toNat_natCast, List.take_left, above]

/-- The names in scope at the end of a trail to an address: nearest first and in each declaration in
order, the block parameters that the nodes above the address declare. Beside the program of a block its
parameters are not in scope, and the name that a path begins with stands for the component whose element
is the first to declare it. -/
structure Scoped (tree : Node Range) (trail : Trail (Node Range)) (address : List Slot) : Prop where
  visits : trail.visits = tree.along [] address
  focus : ∃ visit, trail.focus? = some visit ∧ tree.at? address = some visit.node
  visited {node : Node Range} (member : node ∈ tree.above address)
    (declares : node.layer.declared ≠ []) : ∃ visit ∈ trail.visits, visit.node = node
  scope : trail.localScope.map Trail.declarationOf =
    (tree.above address).reverse.flatMap declarations
  beside {front below : List Slot} {slot : Slot} {outer : Node Range} {call : Call (Node Range)}
    {program : Node Range} {inverse : Option (Node Range)} (cut : address = front ++ slot :: below)
    (found : tree.at? front = some outer) (block : outer.layer = .blockCall call program inverse)
    (elsewhere : slot ≠ .program) : ∀ binding ∈ trail.localScope, binding.declaring.node ≠ program
  component {node : Node Range} {spelling name : String} {parts : List String} {data : Bool}
    (here : tree.at? address = some node) (path : node.layer = .path spelling (name :: parts) data)
    (other : name ≠ "this") : trail.componentName? =
      ((tree.above address).reverse.find? (name ∈ ·.layer.declared)).bind
        fun node => node.layer.elementTag?

/-- Local names of every template are those that the nodes around them declare. -/
theorem parse_scoped (parsed : parse text = .ok tree) (gives : tree.trailTo? p = some trail) :
    ∃ address, Scoped tree trail address := by
  obtain ⟨address, visit, found, visits, focus, nodes⟩ := exists_along (parse_laminar parsed) gives
  have reached : (tree.at? address).isSome := by rw [found]; rfl
  have placed : ∀ node ∈ tree.above address, node.layer.declared ≠ [] → node.range.isSome := by
    intro node member declares
    obtain ⟨front, _, _, -, above⟩ := (mem_above reached).mp member
    exact placed_of_declares parsed above declares
  have scope : trail.localScope.map Trail.declarationOf =
      (tree.above address).reverse.flatMap declarations := by
    rw [Trail.map_localScope, nodes, ← List.filter_reverse]
    exact flatMap_declarations_placed fun node member => placed node (List.mem_reverse.mp member)
  refine ⟨address, visits, ⟨visit, focus, found⟩, ?_, scope, ?_, ?_⟩
  · intro node member declares
    have listed : node ∈ (tree.above address).filter (·.range.isSome) :=
      List.mem_filter.mpr ⟨member, placed node member declares⟩
    rw [← nodes] at listed
    obtain ⟨visit, before, rfl⟩ := List.mem_map.mp listed
    exact ⟨visit, List.mem_of_mem_take before, rfl⟩
  · intro front below slot outer call program inverse cut above block elsewhere binding member
    have listed := List.mem_map_of_mem (f := Trail.declarationOf) member
    rw [scope] at listed
    obtain ⟨node, inside, declared⟩ := List.mem_flatMap.mp listed
    obtain ⟨-, rfl⟩ := mem_declarations.mp declared
    subst cut
    exact ne_program_of_mem_above parsed reached above block elsewhere (List.mem_reverse.mp inside)
  · intro node spelling name parts data here path other
    cases found.symm.trans here
    rw [Trail.componentName?_eq (Trail.localName?_of_path focus path other), scope,
      find?_flatMap_declarations]

/-- A template in which a name that an element declares is redeclared for the first program of a block
only. -/
def redeclared : String :=
  "<A as |x|>\x7b\x7b#if b as |x|\x7d\x7d\x7b\x7belse if c as |d|\x7d\x7d\x7b\x7bx\x7d\x7d\x7b\x7b/if\x7d\x7d</A>"

theorem parse_scoped_redeclared : ∃ tree trail, parse redeclared = .ok tree ∧
    tree.trailTo? ⟨0, 48⟩ = some trail ∧ trail.localScope.map Binding.name = ["d", "x"] ∧
      trail.componentName? = some "A" ∧ ∃ address, Scoped tree trail address := by
  have read : ((parse redeclared).toOption.bind fun tree =>
      (Trail.ofVisits? ((tree.fold (searchLayer ⟨0, 48⟩)).2 [])).map fun trail =>
        (trail.localScope.map Binding.name, trail.componentName?)) =
      some (["d", "x"], some "A") := by decide +kernel
  simp only [← trailTo?_eq_fold, Option.bind_eq_some_iff, Option.map_eq_some_iff,
    Prod.mk.injEq] at read
  obtain ⟨tree, parsed, trail, gives, names, component⟩ := read
  have parsed : parse redeclared = .ok tree := by
    cases given : parse redeclared <;> rw [given] at parsed <;> cases parsed
    rfl
  exact ⟨tree, trail, parsed, gives, names, component, parse_scoped parsed gives⟩

end Parse

end EmberAssist.Template
