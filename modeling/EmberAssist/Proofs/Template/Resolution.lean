import Mathlib.Data.List.Infix
import EmberAssist.Template.Trail
import EmberAssist.Proofs.Template.Placement

/-! The search for the node at a position. It takes the first child that has anything at the position
and never turns back, and yet finds every node around the position, because in the tree of a template
what other children came from does not reach there. -/
namespace EmberAssist.Template

/-- A trail goes through all visits there are, with the last one in focus. -/
theorem Trail.exists_of_ofVisits? {α : Type} [NodeLike α] {visits : List (Visit α)} {trail : Trail α}
    (gives : Trail.ofVisits? visits = some trail) : ∃ before visit, visits = before ++ [visit] ∧
      trail = ⟨before ++ [visit], (before.length : Nat)⟩ := by
  rcases List.eq_nil_or_concat' visits with rfl | ⟨before, visit, rfl⟩
  · simp [Trail.ofVisits?] at gives
  · have last : ((before ++ [visit]).length : Int) - 1 = (before.length : Nat) := by simp
    rw [Trail.ofVisits?, if_neg (by simp), Option.some.injEq, last] at gives
    exact ⟨before, visit, rfl, gives.symm⟩

namespace Node

/-- A node as the visit of a trail, if it has a place. -/
def visitOf (node : Node Range) (slots : List Slot) : List (Visit (Node Range)) :=
  if node.range.isSome then [⟨node, slots⟩] else []

/-- The slots in which a trail holds a child: none if the parent is not on the trail. -/
def slotsBelow (node : Node Range) (slot : Slot) : List Slot :=
  if node.range.isSome then [slot] else []

/-- The visits of the placed nodes on the way down an address. -/
def along : Node Range → List Slot → List Slot → List (Visit (Node Range))
  | node, slots, [] => node.visitOf slots
  | node, slots, slot :: address =>
    node.visitOf slots ++
      ((node.child? slot).map fun child => child.along (node.slotsBelow slot) address).getD []

variable {tree node part : Node Range} {address below : List Slot} {slot : Slot}
variable {slots : List Slot} {range place : Range} {p : Position}

/-! ## The first child with a chain -/

section First
variable {α β : Type} {f : α → List β} {items : List α}

theorem firstNonEmpty_attach (f : α → List β) (items : List α) :
    firstNonEmpty (fun item => f item.1) items.attach = firstNonEmpty f items := by
  have plain : ∀ (held : List {item // item ∈ items}),
      firstNonEmpty (fun item => f item.1) held = firstNonEmpty f (held.map Subtype.val) := by
    intro held
    induction held with
    | nil => rfl
    | cons item rest ih => simp only [firstNonEmpty, List.map_cons, ih]
  rw [plain, List.attach_map_subtype_val]

theorem firstNonEmpty_eq_nil : firstNonEmpty f items = [] ↔ ∀ item ∈ items, f item = [] := by
  induction items with
  | nil => simp [firstNonEmpty]
  | cons item rest ih =>
    cases found : f item with
    | nil => simp [firstNonEmpty, found, ih]
    | cons b found' => simp [firstNonEmpty, found]

/-- What is found is what the first item with anything gives. -/
theorem firstNonEmpty_of_ne_nil (filled : firstNonEmpty f items ≠ []) :
    ∃ item ∈ items, f item ≠ [] ∧ firstNonEmpty f items = f item := by
  induction items with
  | nil => exact absurd rfl filled
  | cons item rest ih =>
    cases found : f item with
    | nil =>
      simp only [firstNonEmpty, found] at filled ⊢
      obtain ⟨other, member, gives, same⟩ := ih filled
      exact ⟨other, List.mem_cons_of_mem _ member, gives, same⟩
    | cons b found' =>
      exact ⟨item, by simp, by simp [found], by simp [firstNonEmpty, found]⟩

end First

/-! ## Searching a tree -/

theorem visitsAt_of_unplaced (unplaced : node.range = none) :
    node.visitsAt p slots = firstNonEmpty (fun entry => entry.2.visitsAt p []) node.layer.slots := by
  obtain ⟨range, layer⟩ := node
  cases unplaced
  rw [visitsAt]
  exact firstNonEmpty_attach (fun entry : Slot × Node Range => entry.2.visitsAt p []) layer.slots

theorem visitsAt_of_contains (placed : node.range = some range) (inside : range.contains p) :
    node.visitsAt p slots = ⟨node, slots⟩ ::
      firstNonEmpty (fun entry => entry.2.visitsAt p [entry.1]) node.layer.slots := by
  obtain ⟨_, layer⟩ := node
  cases placed
  rw [visitsAt, if_pos inside]
  exact congrArg _ (firstNonEmpty_attach
    (fun entry : Slot × Node Range => entry.2.visitsAt p [entry.1]) layer.slots)

theorem visitsAt_of_not_contains (placed : node.range = some range)
    (outside : ¬ range.contains p) : node.visitsAt p slots = [] := by
  obtain ⟨_, layer⟩ := node
  cases placed
  rw [visitsAt, if_neg outside]

/-- Wherever the search does not stop at a node that lies elsewhere, it goes on with the children. -/
theorem visitsAt_eq (around : ∀ range ∈ node.range, range.contains p) :
    node.visitsAt p slots = node.visitOf slots ++
      firstNonEmpty (fun entry => entry.2.visitsAt p (node.slotsBelow entry.1)) node.layer.slots := by
  cases placed : node.range with
  | none => simp [visitsAt_of_unplaced placed, visitOf, slotsBelow, placed]
  | some range =>
    simp [visitsAt_of_contains placed (around range placed), visitOf, slotsBelow, placed]

/-- Every visit is of a node around the position. -/
theorem contains_of_mem_visitsAt {visit : Visit (Node Range)}
    (member : visit ∈ node.visitsAt p slots) :
    ∃ range, visit.node.range = some range ∧ range.contains p := by
  induction node using Node.induction generalizing slots with
  | step node ih =>
    by_cases around : ∀ range ∈ node.range, range.contains p
    · rw [visitsAt_eq around] at member
      rcases List.mem_append.mp member with here | later
      · cases placed : node.range with
        | none => simp [visitOf, placed] at here
        | some range =>
          simp only [visitOf, placed, Option.isSome_some, ↓reduceIte, List.mem_singleton] at here
          exact ⟨range, by rw [here]; exact placed, around range placed⟩
      · obtain ⟨entry, held, -, same⟩ := firstNonEmpty_of_ne_nil (List.ne_nil_of_mem later)
        rw [same] at later
        exact ih entry.2 (List.mem_map_of_mem held) later
    · simp only [not_forall] at around
      obtain ⟨range, placed, outside⟩ := around
      rw [visitsAt_of_not_contains placed outside] at member
      cases member

/-- A place at the front of a tree is that of one of its parts. -/
theorem exists_of_mem_front {ρ : Type} {node : Node ρ} {place : ρ} (member : place ∈ node.front) :
    ∃ part, node.Holds part ∧ part.range = some place := by
  induction node using Node.induction with
  | step node ih =>
    obtain ⟨range, layer⟩ := node
    cases range with
    | some range =>
      rw [front_some, List.mem_singleton] at member
      exact ⟨_, Holds.self _, by rw [member]; rfl⟩
    | none =>
      rw [front_none, List.mem_flatMap] at member
      obtain ⟨child, held, member⟩ := member
      obtain ⟨part, found, placed⟩ := ih child held member
      exact ⟨part, holds_iff.mpr (.inr ⟨child, held, found⟩), placed⟩

/-- Where a search finds anything, a place at the front of the tree is around the position. -/
theorem exists_front_of_visitsAt (filled : node.visitsAt p slots ≠ []) :
    ∃ place ∈ node.front, place.contains p := by
  induction node using Node.induction generalizing slots with
  | step node ih =>
    obtain ⟨range, layer⟩ := node
    cases range with
    | some range =>
      by_cases inside : range.contains p
      · exact ⟨range, by simp, inside⟩
      · exact absurd (visitsAt_of_not_contains rfl inside) filled
    | none =>
      rw [visitsAt_of_unplaced rfl] at filled
      obtain ⟨entry, held, gives, -⟩ := firstNonEmpty_of_ne_nil filled
      obtain ⟨place, member, inside⟩ := ih entry.2 (List.mem_map_of_mem held) gives
      rw [front_none]
      exact ⟨place, List.mem_flatMap.mpr ⟨entry.2, List.mem_map_of_mem held, member⟩, inside⟩

/-! ## Completeness -/

/-- A part of a tree is around a position. If it begins there, nothing else ends there. -/
inductive Meets (p : Position) (node : Node Range) (target : List Slot) : Prop where
  | mk {part : Node Range} {range : Range} (found : node.at? target = some part)
      (placed : part.range = some range) (first : range.start ≤ p) (last : p < range.stop)
      (free : p = range.start → ∀ other place, node.Holds other → other.range = some place →
        place.stop ≠ p)

theorem Meets.child (meets : Meets p node (slot :: address)) :
    ∃ child, node.child? slot = some child ∧ Meets p child address := by
  obtain ⟨found, placed, first, last, free⟩ := meets
  rw [at?_cons, Option.bind_eq_some_iff] at found
  obtain ⟨child, held, found⟩ := found
  exact ⟨child, held, found, placed, first, last, fun begins other place part =>
    free begins other place (holds_iff.mpr (.inr ⟨child, mem_children_of_child? held, part⟩))⟩

/-- A node with a part around a position is around it as well. -/
theorem Meets.contains (meets : Meets p node address) (laminar : node.Laminar) :
    ∀ outer ∈ node.range, outer.contains p := by
  obtain ⟨found, placed, first, last, -⟩ := meets
  intro outer here
  have inside := laminar.inside_ancestor here found placed
  exact Range.contains_iff.mpr ⟨inside.1.trans first, last.le.trans inside.2⟩

/-- Nothing is at the position in the slots beside the one on the way to a part around it. -/
theorem Meets.slot_eq (meets : Meets p node (slot :: address)) (laminar : node.Laminar)
    {otherSlot : Slot} {other : Node Range} (there : node.child? otherSlot = some other)
    (filled : other.visitsAt p slots ≠ []) : otherSlot = slot := by
  obtain ⟨found, placed, first, last, free⟩ := meets
  rw [at?_cons, Option.bind_eq_some_iff] at found
  obtain ⟨child, held, found⟩ := found
  by_contra different
  obtain ⟨place, front, reaches⟩ := exists_front_of_visitsAt filled
  obtain ⟨outer, member, inside⟩ := (laminar.child held).inside_front found placed
  rw [Range.contains_iff] at reaches
  rcases laminar.apart_fronts there held different front member with before | behind
  · -- What ends before the part can reach the position only where the part begins.
    have begins := le_antisymm (reaches.2.trans (before.trans inside.1)) first
    have ends := le_antisymm (before.trans (inside.1.trans first)) reaches.2
    obtain ⟨part, held, placed⟩ := exists_of_mem_front front
    exact free begins part place
      (holds_iff.mpr (.inr ⟨other, mem_children_of_child? there, held⟩)) placed ends
  · exact absurd (last.trans_le (inside.2.trans (behind.trans reaches.1))) (lt_irrefl p)

/-- The search goes along an address that leads through all parts around the position. -/
theorem exists_searched (p : Position) (slots : List Slot) (laminar : node.Laminar) :
    ∃ address, (node.at? address).isSome ∧
      (node.visitsAt p slots ≠ [] → node.visitsAt p slots = node.along slots address) ∧
      ∀ target, Meets p node target → node.visitsAt p slots ≠ [] ∧ target <+: address := by
  induction node using Node.induction generalizing slots with
  | step node ih =>
    by_cases around : ∀ range ∈ node.range, range.contains p
    swap
    · have outside := around
      simp only [not_forall] at outside
      obtain ⟨range, placed, outside⟩ := outside
      exact ⟨[], rfl, fun filled => absurd (visitsAt_of_not_contains placed outside) filled,
        fun target meets => absurd (meets.contains laminar) around⟩
    have here : Meets p node [] → node.visitsAt p slots ≠ [] := by
      rintro ⟨found, placed, first, last, -⟩
      cases found
      rw [visitsAt_of_contains placed (Range.contains_iff.mpr ⟨first, last.le⟩)]
      simp
    rw [visitsAt_eq around] at here ⊢
    have descend : ∀ {slot address}, Meets p node (slot :: address) → ∃ child,
        node.child? slot = some child ∧ child.visitsAt p (node.slotsBelow slot) ≠ [] := by
      intro slot address meets
      obtain ⟨child, held, meets⟩ := meets.child
      obtain ⟨_, -, -, through⟩ := ih child (mem_children_of_child? held) (node.slotsBelow slot)
        (laminar.child held)
      exact ⟨child, held, (through address meets).1⟩
    by_cases nothing : firstNonEmpty (fun entry => entry.2.visitsAt p
        (node.slotsBelow entry.1)) node.layer.slots = []
    · refine ⟨[], rfl, fun _ => by rw [nothing, List.append_nil, along], fun target meets => ?_⟩
      cases target with
      | nil => exact ⟨here meets, List.prefix_refl _⟩
      | cons slot address =>
        obtain ⟨child, held, filled⟩ := descend meets
        exact absurd (firstNonEmpty_eq_nil.mp nothing _ (child?_eq_some.mp held)) filled
    · obtain ⟨⟨slot, child⟩, held, gives, same⟩ := firstNonEmpty_of_ne_nil nothing
      have there := child?_eq_some.mpr held
      obtain ⟨address, reached, alike, through⟩ :=
        ih child (List.mem_map_of_mem held) (node.slotsBelow slot) (laminar.child there)
      refine ⟨slot :: address, by rw [at?_cons, there]; exact reached, fun _ => ?_, ?_⟩
      · rw [same, along, there, alike gives]
        rfl
      · refine fun target meets => ⟨by simp [nothing], ?_⟩
        cases target with
        | nil => exact List.nil_prefix
        | cons otherSlot rest =>
          cases meets.slot_eq laminar there gives
          obtain ⟨other, otherHeld, meets⟩ := meets.child
          cases there.symm.trans otherHeld
          exact List.cons_prefix_cons.mpr ⟨rfl, (through rest meets).2⟩

/-! ## Trails -/

/-- The addresses of the placed nodes on the way down an address. -/
def stops (node : Node Range) (address : List Slot) : List (List Slot) :=
  address.inits.filter fun above => ((node.at? above).bind Node.range).isSome

theorem mem_stops {above : List Slot} : above ∈ node.stops address ↔
    above <+: address ∧ ∃ part range, node.at? above = some part ∧ part.range = some range := by
  simp only [stops, List.mem_filter, List.mem_inits, Option.isSome_iff_exists,
    Option.bind_eq_some_iff]
  rw [exists_comm]

private theorem pairwise_stops (node : Node Range) (address : List Slot) :
    (node.stops address).Pairwise fun above below => above <+: below ∧ above ≠ below := by
  refine List.Pairwise.filter _ ?_
  induction address with
  | nil => simp
  | cons slot address ih =>
    rw [List.inits_cons, List.pairwise_cons, List.pairwise_map]
    refine ⟨?_, ih.imp ?_⟩
    · intro below member
      obtain ⟨rest, -, rfl⟩ := List.mem_map.mp member
      exact ⟨List.nil_prefix, by simp⟩
    · rintro above below ⟨shorter, differ⟩
      exact ⟨List.cons_prefix_cons.mpr ⟨rfl, shorter⟩, by simpa using differ⟩

private theorem forall₂_stops (reached : (node.at? address).isSome) :
    List.Forall₂ (fun above visit => node.at? above = some visit.node) (node.stops address)
      (node.along slots address) := by
  induction address generalizing node slots with
  | nil =>
    cases placed : node.range <;> simp [stops, along, visitOf, placed]
  | cons slot address ih =>
    rw [at?_cons] at reached
    obtain ⟨part, found⟩ := Option.isSome_iff_exists.mp reached
    obtain ⟨child, held, found⟩ := Option.bind_eq_some_iff.mp found
    have below : List.Forall₂ _ _ (child.along (node.slotsBelow slot) address) :=
      ih (by rw [found]; rfl)
    have cut : node.stops (slot :: address) = (if node.range.isSome then [[]] else []) ++
        (child.stops address).map (slot :: ·) := by
      simp only [stops, List.inits_cons, List.filter_cons, List.filter_map, at?_nil,
        Option.bind_some, Function.comp_def, at?_cons, held]
      split <;> rfl
    rw [cut, along, held, Option.map_some, Option.getD_some]
    refine List.rel_append ?_ ?_
    · cases placed : node.range <;> simp [visitOf, placed]
    · refine List.forall₂_map_left_iff.mpr (below.imp fun above visit found => ?_)
      rw [at?_cons, held]
      exact found

/-- The visits of the trail to a position, none if there is no trail. -/
def chainTo (tree : Node Range) (p : Position) : List (Visit (Node Range)) :=
  ((tree.trailTo? p).map Trail.visits).getD []

theorem chainTo_eq (tree : Node Range) (p : Position) : tree.chainTo p = tree.visitsAt p [] := by
  unfold chainTo trailTo? Trail.ofVisits?
  cases tree.visitsAt p [] <;> rfl

/-- A trail to a position is what the search finds, with the last visit in focus. -/
theorem exists_visits_of_trailTo? {trail : Trail (Node Range)} (gives : tree.trailTo? p = some trail) :
    ∃ before visit, tree.visitsAt p [] = before ++ [visit] ∧
      trail = ⟨before ++ [visit], (before.length : Nat)⟩ :=
  Trail.exists_of_ofVisits? gives

/-- The trail to a position visits the nodes at some addresses, from the outermost to the innermost:
every node that the position is properly inside and, if no node ends at the position, exactly the
nodes around it. -/
structure Resolved (tree : Node Range) (p : Position) (addresses : List (List Slot)) : Prop where
  visited : List.Forall₂ (fun address visit => tree.at? address = some visit.node) addresses
    (tree.chainTo p)
  inward : addresses.Pairwise fun above below => above <+: below ∧ above ≠ below
  proper {address : List Slot} {node : Node Range} {range : Range}
    (found : tree.at? address = some node) (placed : node.range = some range)
    (first : range.start < p) (last : p < range.stop) : address ∈ addresses
  exactly (unended : ∀ address node range, tree.at? address = some node →
      node.range = some range → range.stop ≠ p) {address : List Slot} :
    address ∈ addresses ↔
      ∃ node range, tree.at? address = some node ∧ node.range = some range ∧ range.contains p

/-- The search of a laminar tree comes through all parts around the position at which nothing else
ends. -/
private theorem exists_visited (laminar : tree.Laminar) (p : Position) :
    ∃ addresses : List (List Slot),
      List.Forall₂ (fun address visit => tree.at? address = some visit.node) addresses
        (tree.chainTo p) ∧
      (addresses.Pairwise fun above below => above <+: below ∧ above ≠ below) ∧
      (∀ address ∈ addresses, ∃ node range,
        tree.at? address = some node ∧ node.range = some range ∧ range.contains p) ∧
      ∀ address, Meets p tree address → address ∈ addresses := by
  obtain ⟨address, reached, alike, through⟩ := exists_searched p [] laminar
  rw [chainTo_eq]
  by_cases nothing : tree.visitsAt p [] = []
  · exact ⟨[], by simp [nothing], .nil, by simp, fun target meets =>
      absurd nothing (through target meets).1⟩
  have visited : List.Forall₂ _ (tree.stops address) (tree.visitsAt p []) :=
    alike nothing ▸ forall₂_stops reached
  refine ⟨tree.stops address, visited, pairwise_stops tree address, ?_, ?_⟩
  · intro above member
    obtain ⟨index, bound, rfl⟩ := List.mem_iff_getElem.mp member
    have here := visited.get bound (visited.length_eq ▸ bound)
    obtain ⟨range, placed, inside⟩ := contains_of_mem_visitsAt (List.get_mem _ _)
    exact ⟨_, range, here, placed, inside⟩
  · intro target meets
    have shorter := (through target meets).2
    obtain ⟨found, placed, -, -, -⟩ := meets
    exact mem_stops.mpr ⟨shorter, _, _, found, placed⟩

theorem exists_resolved (laminar : tree.Laminar) (p : Position) :
    ∃ addresses, Resolved tree p addresses := by
  obtain ⟨addresses, visited, inward, around, through⟩ := exists_visited laminar p
  refine ⟨addresses, visited, inward, ?_, ?_⟩
  · intro address node range found placed first last
    exact through address ⟨found, placed, first.le, last, fun begins =>
      absurd begins.symm (ne_of_lt first)⟩
  · refine fun unended {address} => ⟨around address, ?_⟩
    rintro ⟨node, range, found, placed, inside⟩
    rw [Range.contains_iff] at inside
    refine through address ⟨found, placed, inside.1,
      lt_of_le_of_ne inside.2 (unended address node range found placed).symm, ?_⟩
    rintro - other place ⟨elsewhere, otherFound⟩ otherPlaced
    exact unended elsewhere other place otherFound otherPlaced

/-! ## The search as a fold -/

/-- A node and what the search for a position finds from it, of what was found from its children. -/
def searchLayer (p : Position) (range : Option Range)
    (layer : Layer (Node Range × (List Slot → List (Visit (Node Range))))) :
    Node Range × (List Slot → List (Visit (Node Range))) :=
  let node := mk range (layer.map Prod.fst)
  (node, fun slots =>
    match range with
    | none => firstNonEmpty (fun entry => entry.2.2 []) layer.slots
    | some range =>
      if range.contains p then
        ⟨node, slots⟩ :: firstNonEmpty (fun entry => entry.2.2 [entry.1]) layer.slots
      else [])

private theorem firstNonEmpty_map {α β γ : Type} (f : β → List γ) (g : α → β) (items : List α) :
    firstNonEmpty f (items.map g) = firstNonEmpty (f ∘ g) items := by
  induction items with
  | nil => rfl
  | cons a items ih => simp only [List.map_cons, firstNonEmpty, Function.comp_apply, ih]

/-- The search for a position folds the tree. -/
theorem fold_searchLayer (p : Position) (node : Node Range) :
    node.fold (searchLayer p) = (node, fun slots => node.visitsAt p slots) := by
  induction node using Node.induction with
  | step node ih =>
    obtain ⟨range, layer⟩ := node
    have same : layer.map (fold (searchLayer p)) =
        layer.map fun child => (child, fun slots => child.visitsAt p slots) := Layer.map_congr ih
    rw [fold_mk, same]
    refine Prod.ext ?_ (funext fun slots => ?_)
    · simp only [searchLayer, Layer.map_map]
      exact congrArg _ layer.map_id
    · simp only [searchLayer, Layer.map_map, Layer.slots_map, firstNonEmpty_map, Function.comp_def]
      have nodes : layer.map (fun child => child) = layer := layer.map_id
      have placed : (mk range layer).range = range := rfl
      cases range with
      | none => rw [visitsAt_of_unplaced placed, Node.layer]
      | some range =>
        by_cases inside : range.contains p
        · rw [visitsAt_of_contains placed inside, nodes]
          exact if_pos inside
        · rw [visitsAt_of_not_contains placed inside]
          exact if_neg inside

/-- The trail to a position, by the fold. -/
theorem trailTo?_eq_fold (tree : Node Range) (p : Position) :
    tree.trailTo? p = Trail.ofVisits? ((tree.fold (searchLayer p)).2 []) := by
  rw [fold_searchLayer, trailTo?]

end Node

/-- Every position of every template is resolved. -/
theorem parse_resolved {text : String} {tree : Node Range} (parsed : parse text = .ok tree)
    (p : Position) : ∃ addresses, tree.Resolved p addresses :=
  Node.exists_resolved (parse_laminar parsed) p

theorem resolved_between_brothers : ∃ tree, parse "<b {{on 1}} c></b>{{d}}" = .ok tree ∧
    ∃ addresses, tree.Resolved ⟨0, 12⟩ addresses := by
  have read : (parse "<b {{on 1}} c></b>{{d}}").isOk = true := by decide +kernel
  cases parsed : parse "<b {{on 1}} c></b>{{d}}" with
  | error fault =>
    rw [parsed] at read
    cases read
  | ok tree => exact ⟨tree, rfl, parse_resolved parsed ⟨0, 12⟩⟩

end EmberAssist.Template
