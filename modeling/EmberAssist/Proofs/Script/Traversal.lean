import Mathlib.Data.List.Lex
import EmberAssist.Script.Lookup

/-! The order in which the tree of a script is searched. A search keeps what it has still to visit on a
stack. It visits every node once and in the order of the source: a node before those it holds, and all
below one of these before the next. What it finds is what the first node in that order answers. -/
namespace EmberAssist.Script

variable {root node : Node} {place : List Nat}

/-! ## Places -/

/-- What holds of a node if it holds of those that the node holds, holds of all nodes. -/
theorem Node.induction_held {Holds : Node → Prop}
    (step : ∀ node, (∀ child ∈ node.held, Holds child) → Holds node) (node : Node) : Holds node :=
  step node fun child _member => Node.induction_held step child
termination_by node
decreasing_by exact Node.sizeOf_lt_of_mem_held _member

/-- The node at a place below a node. A place says, from above, which of the nodes that are held to go
into; in the order of lists a node comes before all below it, and all below one of the nodes it holds
before the next of these. -/
def Node.at? (node : Node) : List Nat → Option Node
  | [] => some node
  | index :: place => (node.held[index]?).bind fun child => child.at? place

mutual

/-- The places below a node, from its own. -/
def Node.places : Node → List (List Nat)
  | .leaf .. => [[]]
  | .branch _ _ _ children => [] :: placesAmong 0 children

/-- The places below nodes that are held, from the number of the first of them. -/
def placesAmong (index : Nat) : List (Field × Node) → List (List Nat)
  | [] => []
  | (_, child) :: others => child.places.map (index :: ·) ++ placesAmong (index + 1) others

end

theorem placesAmong_eq_flatMap (index : Nat) (children : List (Field × Node)) :
    placesAmong index children = ((children.map (·.2)).zipIdx index).flatMap
      fun (child, index) => child.places.map (index :: ·) := by
  induction children generalizing index with
  | nil => rfl
  | cons child children ih =>
    rw [placesAmong, ih, List.map_cons, List.zipIdx_cons, List.flatMap_cons]

/-- The one equation of places. -/
theorem Node.places_eq (node : Node) : node.places =
    [] :: node.held.zipIdx.flatMap fun (child, index) => child.places.map (index :: ·) := by
  cases node with
  | leaf => rfl
  | branch kind start stop children =>
    rw [Node.places, placesAmong_eq_flatMap]
    rfl

theorem Node.mem_places_iff : place ∈ node.places ↔ (node.at? place).isSome := by
  induction node using Node.induction_held generalizing place with
  | step node ih =>
    rw [Node.places_eq]
    cases place with
    | nil => simp [Node.at?]
    | cons index place =>
      constructor
      · intro member
        simp only [List.mem_cons, reduceCtorEq, List.mem_flatMap, List.mem_map, List.cons.injEq,
          false_or] at member
        obtain ⟨⟨child, number⟩, numbered, inner, member, rfl, rfl⟩ := member
        have held := List.mem_zipIdx_iff_getElem?.mp numbered
        rw [Node.at?, held]
        exact (ih child (List.mem_of_getElem? held)).mp member
      · intro found
        obtain ⟨other, found⟩ := Option.isSome_iff_exists.mp found
        obtain ⟨child, held, found⟩ := Option.bind_eq_some_iff.mp found
        have member := (ih child (List.mem_of_getElem? held)).mpr
          (Option.isSome_iff_exists.mpr ⟨other, found⟩)
        exact List.mem_cons_of_mem _ (List.mem_flatMap.mpr ⟨(child, index),
          List.mem_zipIdx_iff_getElem?.mpr held, List.mem_map_of_mem member⟩)

/-- The places below a node stand in the order of lists. -/
theorem Node.pairwise_places (node : Node) : node.places.Pairwise (· < ·) := by
  induction node using Node.induction_held with
  | step node ih =>
    have below (child : Node) (index : Nat) (ordered : child.places.Pairwise (· < ·)) :
        (child.places.map (index :: ·)).Pairwise (· < ·) :=
      List.pairwise_map.mpr (ordered.imp fun before => List.cons_lt_cons_iff.mpr (.inr ⟨rfl, before⟩))
    have numbers : node.held.zipIdx.Pairwise fun one other => one.2 < other.2 := by
      rw [← List.pairwise_map, List.zipIdx_map_snd]
      exact List.pairwise_lt_range'
    rw [Node.places_eq, List.pairwise_cons, List.pairwise_flatMap]
    refine ⟨?_, ?_, numbers.imp ?_⟩
    · intro place member
      obtain ⟨⟨child, index⟩, -, member⟩ := List.mem_flatMap.mp member
      obtain ⟨inner, -, rfl⟩ := List.mem_map.mp member
      exact List.nil_lt_cons _ _
    · rintro ⟨child, index⟩ numbered
      exact below child index (ih child (List.fst_mem_of_mem_zipIdx numbered))
    · intro one other before place member later laterMember
      obtain ⟨inner, -, rfl⟩ := List.mem_map.mp member
      obtain ⟨laterInner, -, rfl⟩ := List.mem_map.mp laterMember
      exact List.cons_lt_cons_iff.mpr (.inl before)

/-! ## The recursive traversal -/

mutual

/-- A node and all below it, by recursion: the node, and then all of each that it holds. -/
def Node.preorder : Node → List Node
  | .leaf kind start text => [.leaf kind start text]
  | .branch kind start stop children => .branch kind start stop children :: preorderAmong children

/-- All of each of some nodes. -/
def preorderAmong : List (Field × Node) → List Node
  | [] => []
  | (_, child) :: others => child.preorder ++ preorderAmong others

end

theorem preorderAmong_eq_flatMap (children : List (Field × Node)) :
    preorderAmong children = (children.map (·.2)).flatMap Node.preorder := by
  induction children with
  | nil => rfl
  | cons child children ih => rw [preorderAmong, ih, List.map_cons, List.flatMap_cons]

/-- The one equation of the traversal. -/
theorem Node.preorder_eq (node : Node) :
    node.preorder = node :: node.held.flatMap Node.preorder := by
  cases node with
  | leaf => rfl
  | branch kind start stop children =>
    rw [Node.preorder, preorderAmong_eq_flatMap]
    rfl

/-- The traversal gives the nodes at all places in turn. -/
theorem Node.map_some_preorder (node : Node) :
    node.preorder.map some = node.places.map node.at? := by
  induction node using Node.induction_held with
  | step node ih =>
    have held : node.held = node.held.zipIdx.map Prod.fst := by rw [List.zipIdx_map_fst]
    rw [Node.preorder_eq, Node.places_eq, List.map_cons, List.map_cons, List.map_flatMap,
      List.map_flatMap, held, List.flatMap_map, ← held]
    congr 1
    refine List.flatMap_congr fun (child, index) numbered => ?_
    have found := List.mem_zipIdx_iff_getElem?.mp numbered
    rw [ih child (List.mem_of_getElem? found), List.map_map]
    refine List.map_congr_left fun place _ => ?_
    rw [Function.comp_apply, Node.at?, found]
    rfl

/-! ## The walk -/

/-- What is on a stack is traversed from its top. -/
theorem walkFrom_eq_flatMap (stack : List Node) : walkFrom stack = stack.flatMap Node.preorder := by
  fun_induction walkFrom stack with
  | case1 => rfl
  | case2 node stack ih =>
    rw [ih, pushAll_reverse, List.flatMap_append, List.flatMap_cons, Node.preorder_eq,
      List.cons_append]

theorem walk_eq_preorder (root : Node) : walk root = root.preorder := by
  rw [walk, walkFrom_eq_flatMap, List.flatMap_singleton]

/-- The nodes of a tree are visited at places: the node of each visit is the one at its place, there is a
visit for every place of the tree, and the places go up in the order of lists, so that none comes twice. -/
structure Visits (root : Node) (nodes : List Node) (places : List (List Nat)) : Prop where
  found : nodes.map some = places.map root.at?
  every (place : List Nat) : place ∈ places ↔ (root.at? place).isSome
  ordered : places.Pairwise (· < ·)

theorem visits_walk (root : Node) : Visits root (walk root) root.places where
  found := by rw [walk_eq_preorder, Node.map_some_preorder]
  every _ := Node.mem_places_iff
  ordered := root.pairwise_places

/-! ## What is found first -/

/-- Of a list in order the first answer is that of the least item that has one. -/
theorem findSome?_eq_some_iff_of_pairwise {α β : Type} [Preorder α] {items : List α}
    (ordered : items.Pairwise (· < ·)) {answer : α → Option β} {found : β} :
    items.findSome? answer = some found ↔ ∃ item ∈ items, answer item = some found ∧
      ∀ earlier ∈ items, earlier < item → answer earlier = none := by
  constructor
  · intro first
    obtain ⟨front, item, back, rfl, here, nothing⟩ := List.findSome?_eq_some_iff.mp first
    refine ⟨item, by simp, here, fun earlier member before => ?_⟩
    obtain ⟨-, behind, -⟩ := List.pairwise_append.mp ordered
    rcases List.mem_append.mp member with member | member
    · exact nothing earlier member
    · rcases List.mem_cons.mp member with rfl | member
      · exact absurd before (lt_irrefl _)
      · exact absurd before (lt_asymm (List.rel_of_pairwise_cons behind member))
  · rintro ⟨item, member, here, nothing⟩
    obtain ⟨front, back, rfl⟩ := List.append_of_mem member
    obtain ⟨-, -, before⟩ := List.pairwise_append.mp ordered
    refine List.findSome?_eq_some_iff.mpr ⟨front, item, back, rfl, here, fun earlier inFront => ?_⟩
    exact nothing earlier (List.mem_append_left _ inFront)
      (before earlier inFront item List.mem_cons_self)

/-- A search among visited nodes is one among their places. -/
theorem Visits.findSome?_eq {α : Type} {nodes : List Node} {places : List (List Nat)}
    (visits : Visits root nodes places) (answer : Node → Option α) :
    nodes.findSome? answer = places.findSome? fun place => (root.at? place).bind answer := by
  have opened : nodes.findSome? answer = (nodes.map some).findSome? (·.bind answer) := by
    rw [List.findSome?_map]
    rfl
  rw [opened, visits.found, List.findSome?_map]
  rfl

/-- A search of a tree gives the answer of the node at the first place that has one. -/
theorem findSome?_walk_eq_some_iff {α : Type} {answer : Node → Option α} {found : α} :
    (walk root).findSome? answer = some found ↔
      ∃ place node, root.at? place = some node ∧ answer node = some found ∧
        ∀ earlier < place, ∀ other, root.at? earlier = some other → answer other = none := by
  have visits := visits_walk root
  rw [visits.findSome?_eq, findSome?_eq_some_iff_of_pairwise visits.ordered]
  constructor
  · rintro ⟨place, -, here, nothing⟩
    obtain ⟨node, held, here⟩ := Option.bind_eq_some_iff.mp here
    refine ⟨place, node, held, here, fun earlier before other told => ?_⟩
    have member := (visits.every earlier).mpr (told ▸ rfl)
    simpa only [told, Option.bind_some] using nothing earlier member before
  · rintro ⟨place, node, held, here, nothing⟩
    refine ⟨place, (visits.every place).mpr (held ▸ rfl), ?_, fun earlier _ before => ?_⟩
    · rw [held]
      exact here
    · exact Option.bind_eq_none_iff.mpr fun other told => nothing earlier before other told

theorem findSome?_walk_eq_none_iff {α : Type} {answer : Node → Option α} :
    (walk root).findSome? answer = none ↔
      ∀ place node, root.at? place = some node → answer node = none := by
  have visits := visits_walk root
  rw [visits.findSome?_eq, List.findSome?_eq_none_iff]
  constructor
  · intro nothing place node held
    have member := (visits.every place).mpr (held ▸ rfl)
    simpa only [held, Option.bind_some] using nothing place member
  · intro nothing place _
    exact Option.bind_eq_none_iff.mpr fun node held => nothing place node held

end EmberAssist.Script
