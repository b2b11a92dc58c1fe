import Mathlib.Data.Fintype.Card
import Mathlib.Data.Fintype.EquivFin
import Mathlib.Data.List.Chain
import Mathlib.Logic.Relation
import EmberAssist.Template.Graph
import EmberAssist.Proofs.Template.Address
import EmberAssist.Proofs.Template.Resolution
import EmberAssist.Proofs.Text

/-! The search for the node at a position of a graph, whose nodes may be shared and whose ranges may be
missing, wrong or overlapping. The rules of the search bound no depth; since every vertex is visited
once, the depth that a search starts with suffices, and what the rules keep holds of all searches. -/
namespace EmberAssist.Template.Graph

variable {graph : Graph}

/-! ## What vertices lead to -/

/-- A vertex has another in one of its slots. -/
def Has (vertex child : graph.Vertex) : Prop := child ∈ (NodeLike.layer vertex).children

/-- A vertex came from some part of the text, and the position is in it. -/
def IsAround (p : Position) (vertex : graph.Vertex) : Prop :=
  ∃ range, NodeLike.range vertex = some range ∧ range.contains p = true

/-- A vertex is reached from another through slots, and no vertex that is passed has a place. -/
inductive LeadsTo : graph.Vertex → graph.Vertex → Prop where
  | slot {vertex child : graph.Vertex} (held : Has vertex child) : LeadsTo vertex child
  | through {vertex between child : graph.Vertex} (held : Has vertex between)
      (unplaced : NodeLike.range between = none) (leads : LeadsTo between child) :
      LeadsTo vertex child

/-- Neither a vertex nor, if it has no place, anything that it leads to is around a position. -/
def Misses (p : Position) (vertex : graph.Vertex) : Prop :=
  ¬ IsAround p vertex ∧ (NodeLike.range vertex = none → ∀ child, LeadsTo vertex child →
    ¬ IsAround p child)

variable {p : Position} {root vertex child start : graph.Vertex}

theorem not_isAround_of_unplaced (unplaced : NodeLike.range vertex = none) : ¬ IsAround p vertex := by
  rintro ⟨range, placed, -⟩
  rw [unplaced] at placed
  cases placed

/-- A vertex that came from elsewhere misses a position whatever it leads to. -/
theorem misses_of_outside {range : Range} (placed : NodeLike.range vertex = some range)
    (outside : range.contains p = false) : Misses p vertex := by
  refine ⟨?_, fun unplaced => ?_⟩
  · rintro ⟨place, same, inside⟩
    cases placed.symm.trans same
    rw [outside] at inside
    cases inside
  · rw [placed] at unplaced
    cases unplaced

/-- Behind slots in which everything misses the position nothing is around it. -/
theorem not_isAround_of_misses (misses : ∀ child, Has vertex child → Misses p child)
    (leads : LeadsTo vertex child) : ¬ IsAround p child := by
  cases leads with
  | slot held => exact (misses child held).1
  | through held unplaced leads => exact (misses _ held).2 unplaced child leads

/-! ## The rules of the search -/

/-- What the search for a position finds from some vertices, one after the other, when some have been
seen before. -/
inductive Finds (p : Position) :
    List graph.Vertex → List graph.Vertex → graph.Search → Prop where
  | nothing : Finds p seen [] ⟨[], seen⟩
  | known {vertex : graph.Vertex} (member : vertex ∈ seen) (others : Finds p seen rest found) :
      Finds p seen (vertex :: rest) found
  | elsewhere {vertex : graph.Vertex} {range : Range} (fresh : vertex ∉ seen)
      (placed : NodeLike.range vertex = some range)
      (outside : range.contains p = false) (others : Finds p (vertex :: seen) rest found) :
      Finds p seen (vertex :: rest) found
  | barren {vertex : graph.Vertex} (fresh : vertex ∉ seen)
      (unplaced : NodeLike.range vertex = none)
      (below : Finds p (vertex :: seen) (NodeLike.layer vertex).children ⟨[], later⟩)
      (others : Finds p later rest found) : Finds p seen (vertex :: rest) found
  | passed {vertex : graph.Vertex} (fresh : vertex ∉ seen)
      (unplaced : NodeLike.range vertex = none)
      (below : Finds p (vertex :: seen) (NodeLike.layer vertex).children found)
      (filled : found.chain ≠ []) : Finds p seen (vertex :: rest) found
  | around {vertex : graph.Vertex} (fresh : vertex ∉ seen) (around : IsAround p vertex)
      (below : Finds p (vertex :: seen) (NodeLike.layer vertex).children found) :
      Finds p seen (vertex :: rest) ⟨vertex :: found.chain, found.seen⟩

variable {seen later vertices rest : List graph.Vertex} {found : graph.Search}

namespace Finds

/-- What has been seen stays seen. -/
theorem seen_suffix (finds : Finds p seen vertices found) : seen <:+ found.seen := by
  induction finds with
  | nothing => exact List.suffix_refl _
  | known member others ih => exact ih
  | elsewhere fresh placed outside others ih => exact (List.suffix_cons _ _).trans ih
  | barren fresh unplaced below others belowIH othersIH =>
    exact ((List.suffix_cons _ _).trans belowIH).trans othersIH
  | passed fresh unplaced below filled ih | around fresh around below ih =>
    exact (List.suffix_cons _ _).trans ih

theorem mem_seen (finds : Finds p seen vertices found) (member : vertex ∈ seen) :
    vertex ∈ found.seen := finds.seen_suffix.subset member

/-- No vertex is seen twice. -/
theorem nodup_seen (finds : Finds p seen vertices found) (distinct : seen.Nodup) :
    found.seen.Nodup := by
  induction finds with
  | nothing => exact distinct
  | known member others ih => exact ih distinct
  | elsewhere fresh placed outside others ih => exact ih (distinct.cons fresh)
  | barren fresh unplaced below others belowIH othersIH =>
    exact othersIH (belowIH (distinct.cons fresh))
  | passed fresh unplaced below filled ih | around fresh around below ih =>
    exact ih (distinct.cons fresh)

/-- The rules leave no choice. -/
theorem unique {other : graph.Search} (finds : Finds p seen vertices found)
    (again : Finds p seen vertices other) : other = found := by
  induction finds generalizing other with
  | nothing =>
    cases again
    rfl
  | known member others ih =>
    cases again with
    | known _ others => exact ih others
    | elsewhere fresh | barren fresh | passed fresh | around fresh => exact absurd member fresh
  | elsewhere fresh placed outside others ih =>
    cases again with
    | known member => exact absurd member fresh
    | elsewhere _ _ _ others => exact ih others
    | barren _ unplaced | passed _ unplaced =>
      rw [placed] at unplaced
      cases unplaced
    | around _ around => exact absurd around (misses_of_outside placed outside).1
  | barren fresh unplaced below others belowIH othersIH =>
    cases again with
    | known member => exact absurd member fresh
    | elsewhere _ placed =>
      rw [unplaced] at placed
      cases placed
    | barren _ _ below others =>
      cases belowIH below
      exact othersIH others
    | passed _ _ below filled =>
      cases belowIH below
      exact absurd rfl filled
    | around _ around => exact absurd around (not_isAround_of_unplaced unplaced)
  | passed fresh unplaced below filled ih =>
    cases again with
    | known member => exact absurd member fresh
    | elsewhere _ placed =>
      rw [unplaced] at placed
      cases placed
    | barren _ _ below others =>
      cases ih below
      exact absurd rfl filled
    | passed _ _ below => exact ih below
    | around _ around => exact absurd around (not_isAround_of_unplaced unplaced)
  | around fresh around below ih =>
    cases again with
    | known member => exact absurd member fresh
    | elsewhere _ placed outside => exact absurd around (misses_of_outside placed outside).1
    | barren _ unplaced | passed _ unplaced =>
      exact absurd around (not_isAround_of_unplaced unplaced)
    | around _ _ below =>
      cases ih below
      rfl

end Finds

/-! ## The search ends -/

namespace Finds

/-- From a vertex at which nothing is found the search goes on with the others. -/
theorem next (fresh : vertex ∉ seen) (here : Finds p seen [vertex] ⟨[], later⟩)
    (others : Finds p later rest found) : Finds p seen (vertex :: rest) found := by
  cases here with
  | known member => exact absurd member fresh
  | elsewhere _ placed outside nothing =>
    cases nothing
    exact .elsewhere fresh placed outside others
  | barren _ unplaced below nothing =>
    cases nothing
    exact .barren fresh unplaced below others
  | passed _ _ _ filled => exact absurd rfl filled

/-- Where something is found the others are left alone. -/
theorem hit (here : Finds p seen [vertex] found) (filled : found.chain ≠ []) :
    Finds p seen (vertex :: rest) found := by
  cases here with
  | known _ nothing | elsewhere _ _ _ nothing | barren _ _ _ nothing =>
    cases nothing
    exact absurd rfl filled
  | passed fresh unplaced below _ => exact .passed fresh unplaced below filled
  | around fresh around below => exact .around fresh around below

end Finds

/-- A depth is no less than the number of vertices that have not been seen. -/
structure Affords (depth : Nat) (seen : List graph.Vertex) : Prop where
  distinct : seen.Nodup
  enough : graph.size ≤ depth + seen.length

theorem length_le_of_nodup {vertices : List graph.Vertex} (distinct : vertices.Nodup) :
    vertices.length ≤ graph.size := by
  have numbers : (vertices.map Vertex.number).Nodup := by
    refine distinct.map fun left right same => ?_
    cases left
    cases right
    exact congrArg Vertex.mk same
  simpa using numbers.length_le_card

namespace Affords
variable {depth : Nat}

theorem pos (affords : Affords depth seen) (fresh : vertex ∉ seen) : depth ≠ 0 := by
  have bound := length_le_of_nodup (affords.distinct.cons fresh)
  have enough := affords.enough
  rw [List.length_cons] at bound
  omega

/-- A vertex that is seen is worth one step down. -/
theorem below (affords : Affords (depth + 1) seen) (fresh : vertex ∉ seen) :
    Affords depth (vertex :: seen) := by
  refine ⟨affords.distinct.cons fresh, ?_⟩
  have enough := affords.enough
  rw [List.length_cons]
  omega

theorem after (affords : Affords depth seen) (finds : Finds p seen vertices found) :
    Affords depth found.seen := by
  refine ⟨finds.nodup_seen affords.distinct, ?_⟩
  have more := finds.seen_suffix.length_le
  have enough := affords.enough
  omega

end Affords

private theorem finds_searchAll {search : List graph.Vertex → graph.Vertex → graph.Search} {depth : Nat}
    (finds : ∀ {seen vertex}, vertex ∉ seen → Affords depth seen →
      Finds p seen [vertex] (search seen vertex)) (affords : Affords depth seen) :
    Finds p seen vertices (searchAll search seen vertices) := by
  induction vertices generalizing seen with
  | nil => exact .nothing
  | cons vertex rest ih =>
    rw [searchAll]
    split
    · rename_i member
      exact .known member (ih affords)
    · rename_i fresh
      have here := finds fresh affords
      split
      · rename_i later missed
        rw [missed] at here
        exact here.next fresh (ih (affords.after here))
      · rename_i filled
        refine here.hit fun nothing => filled (search seen vertex).seen ?_
        rw [← nothing]

/-- Within a depth that the vertices afford, the search goes by its rules. -/
theorem finds_search {depth : Nat} (fresh : vertex ∉ seen) (affords : Affords depth seen) :
    Finds p seen [vertex] (search p depth seen vertex) := by
  induction depth generalizing seen vertex with
  | zero => exact absurd rfl (affords.pos fresh)
  | succ depth ih =>
    have below : Finds p (vertex :: seen) (NodeLike.layer vertex).children _ :=
      finds_searchAll ih (affords.below fresh)
    rw [search]
    cases placed : NodeLike.range vertex with
    | none =>
      simp only
      generalize searchAll _ _ _ = found at below ⊢
      by_cases missed : found.chain = []
      · obtain ⟨chain, later⟩ := found
        cases missed
        exact .barren fresh placed below .nothing
      · exact .passed fresh placed below missed
    | some range =>
      simp only
      split
      · rename_i inside
        exact .around fresh ⟨range, placed, inside⟩ below
      · rename_i outside
        exact .elsewhere fresh placed (by simpa using outside) .nothing

/-- The search from a vertex ends, and in just one way. -/
theorem finds_iff : Finds p [] [root] found ↔ found = search p graph.size [] root := by
  have affords : Affords graph.size ([] : List graph.Vertex) := ⟨List.nodup_nil, Nat.le_refl _⟩
  have finds : Finds p [] [root] (search p graph.size [] root) :=
    finds_search List.not_mem_nil affords
  constructor
  · intro other
    exact finds.unique other
  · rintro rfl
    exact finds

/-! ## What is found -/

/-- The chain of a search consists of vertices around the position, each of which leads to the next
one; the first is one of those from which the search began, or such a one without a place leads to
it. -/
structure IsSound (p : Position) (seen vertices : List graph.Vertex) (found : graph.Search) : Prop where
  around : ∀ vertex ∈ found.chain, IsAround p vertex
  linked : found.chain.IsChain LeadsTo
  first : ∀ vertex ∈ found.chain.head?, ∃ start ∈ vertices,
    vertex = start ∨ NodeLike.range start = none ∧ LeadsTo start vertex
  fresh : ∀ vertex ∈ found.chain, vertex ∉ seen
  distinct : found.chain.Nodup

/-- What is found in the slots of a vertex is what the vertex leads to. -/
private theorem IsSound.leadsTo (sound : IsSound p seen (NodeLike.layer vertex).children found) :
    ∀ child ∈ found.chain.head?, LeadsTo vertex child := by
  intro child head
  obtain ⟨start, held, rfl | ⟨unplaced, leads⟩⟩ := sound.first child head
  · exact .slot held
  · exact .through held unplaced leads

/-- What is found behind a vertex is found from there on. -/
private theorem IsSound.behind (sound : IsSound p later rest found) (kept : seen ⊆ later) :
    IsSound p seen (vertex :: rest) found := by
  refine ⟨sound.around, sound.linked, fun first head => ?_, fun child member old => ?_,
    sound.distinct⟩
  · obtain ⟨start, held, starts⟩ := sound.first first head
    exact ⟨start, List.mem_cons_of_mem _ held, starts⟩
  · exact sound.fresh child member (kept old)

theorem Finds.isSound (finds : Finds p seen vertices found) : IsSound p seen vertices found := by
  induction finds with
  | nothing => exact ⟨by simp, .nil, by simp, by simp, List.nodup_nil⟩
  | known member others ih => exact ih.behind (List.Subset.refl _)
  | elsewhere fresh placed outside others ih => exact ih.behind (List.subset_cons_self _ _)
  | barren fresh unplaced below others belowIH othersIH =>
    exact othersIH.behind fun _ old => below.mem_seen (List.mem_cons_of_mem _ old)
  | @passed _ _ _ vertex fresh unplaced below filled ih =>
    refine ⟨ih.around, ih.linked, fun first head => ?_, fun child member old => ?_, ih.distinct⟩
    · exact ⟨vertex, List.mem_cons_self, .inr ⟨unplaced, ih.leadsTo first head⟩⟩
    · exact ih.fresh child member (List.mem_cons_of_mem _ old)
  | @around _ _ _ vertex fresh around below ih =>
    refine ⟨?_, List.isChain_cons.mpr ⟨ih.leadsTo, ih.linked⟩, fun first head => ?_, ?_, ?_⟩
    · exact List.forall_mem_cons.mpr ⟨around, ih.around⟩
    · cases head
      exact ⟨vertex, List.mem_cons_self, .inl rfl⟩
    · exact List.forall_mem_cons.mpr ⟨fresh, fun child member old =>
        ih.fresh child member (List.mem_cons_of_mem _ old)⟩
    · exact List.nodup_cons.mpr ⟨fun member => ih.fresh vertex member List.mem_cons_self, ih.distinct⟩

/-! ## What is not found -/

/-- A search that finds nothing has seen everything it should: all vertices it began with, and all
that is in the slots of those without a place. -/
structure IsExhausted (p : Position) (seen vertices later : List graph.Vertex) : Prop where
  begun : ∀ vertex ∈ vertices, vertex ∈ later
  missed : ∀ vertex ∈ later, vertex ∉ seen → ¬ IsAround p vertex ∧
    (NodeLike.range vertex = none → ∀ child, Has vertex child → child ∈ later)

theorem Finds.isExhausted (finds : Finds p seen vertices found) (nothing : found.chain = []) :
    IsExhausted p seen vertices found.seen := by
  induction finds with
  | nothing => exact ⟨by simp, fun vertex old fresh => absurd old fresh⟩
  | known member others ih =>
    obtain ⟨begun, missed⟩ := ih nothing
    exact ⟨List.forall_mem_cons.mpr ⟨others.mem_seen member, begun⟩, missed⟩
  | @elsewhere _ _ _ first range fresh placed outside others ih =>
    obtain ⟨begun, missed⟩ := ih nothing
    refine ⟨List.forall_mem_cons.mpr ⟨others.mem_seen List.mem_cons_self, begun⟩, ?_⟩
    intro vertex visited new
    by_cases same : vertex = first
    · subst same
      refine ⟨(misses_of_outside placed outside).1, fun unplaced => ?_⟩
      rw [placed] at unplaced
      cases unplaced
    · exact missed vertex visited (by simp [same, new])
  | @barren _ later _ _ first fresh unplaced below others belowIH othersIH =>
    obtain ⟨held, inner⟩ := belowIH rfl
    obtain ⟨begun, missed⟩ := othersIH nothing
    have visited : first ∈ later := below.mem_seen List.mem_cons_self
    refine ⟨List.forall_mem_cons.mpr ⟨others.mem_seen visited, begun⟩, ?_⟩
    intro vertex visited new
    by_cases early : vertex ∈ later
    · by_cases same : vertex = first
      · subst same
        exact ⟨not_isAround_of_unplaced unplaced, fun _ child has => others.mem_seen (held child has)⟩
      · obtain ⟨away, further⟩ := inner vertex early (by simp [same, new])
        exact ⟨away, fun unplaced child has => others.mem_seen (further unplaced child has)⟩
    · exact missed vertex visited early
  | passed fresh unplaced below filled ih => exact absurd nothing filled
  | around fresh around below ih => cases nothing

/-- Nothing that a vertex leads to is around the position once everything has been seen. -/
private theorem IsExhausted.misses (exhausted : IsExhausted p [] vertices later)
    (visited : vertex ∈ later) : Misses p vertex := by
  refine ⟨(exhausted.missed vertex visited List.not_mem_nil).1, fun unplaced child leads => ?_⟩
  induction leads with
  | slot held =>
    have there := (exhausted.missed _ visited List.not_mem_nil).2 unplaced _ held
    exact (exhausted.missed _ there List.not_mem_nil).1
  | through held open_ leads ih =>
    exact ih ((exhausted.missed _ visited List.not_mem_nil).2 unplaced _ held) open_

/-- Nothing is found exactly if the search should find nothing. -/
theorem chainAt_eq_nil_iff : chainAt root p = [] ↔ Misses p root := by
  have finds : Finds p [] [root] (search p graph.size [] root) := finds_iff.mpr rfl
  constructor
  · intro nothing
    have exhausted := finds.isExhausted nothing
    exact exhausted.misses (exhausted.begun root List.mem_cons_self)
  · intro misses
    by_contra filled
    obtain ⟨vertex, rest, chain⟩ := List.exists_cons_of_ne_nil filled
    have sound := finds.isSound
    rw [chainAt] at chain
    have around := sound.around vertex (by simp [chain])
    obtain ⟨start, member, begins⟩ := sound.first vertex (by simp [chain])
    obtain rfl := List.mem_singleton.mp member
    rcases begins with rfl | ⟨unplaced, leads⟩
    · exact misses.1 around
    · exact misses.2 unplaced vertex leads around

/-! ## The end of the chain -/

/-- No vertex below another is below itself. -/
def IsAcyclic (root : graph.Vertex) : Prop :=
  ∀ vertex, Relation.ReflTransGen Has root vertex → ¬ Relation.TransGen Has vertex vertex

/-- What the last vertex of a chain leads to is not around the position. -/
def IsDeepest (p : Position) (chain : List graph.Vertex) : Prop :=
  ∀ focus ∈ chain.getLast?, ∀ child, LeadsTo focus child → ¬ IsAround p child

/-- Before some vertices are searched, whatever has been seen misses the position or is above all of
them. -/
def Explored (p : Position) (seen vertices : List graph.Vertex) : Prop :=
  ∀ old ∈ seen, Misses p old ∨ ∀ vertex ∈ vertices, Relation.TransGen Has old vertex

namespace Explored

theorem others (explored : Explored p seen (vertex :: rest)) : Explored p seen rest :=
  fun old visited => (explored old visited).imp_right fun above child held =>
    above child (List.mem_cons_of_mem _ held)

theorem below (explored : Explored p seen (vertex :: rest)) :
    Explored p (vertex :: seen) (NodeLike.layer vertex).children := by
  refine List.forall_mem_cons.mpr ⟨.inr fun child held => .single held, fun old visited => ?_⟩
  exact (explored old visited).imp_right fun above child held =>
    (above vertex List.mem_cons_self).tail held

/-- What misses the position may be seen at any time. -/
theorem more (explored : Explored p seen vertices)
    (missed : ∀ old ∈ later, old ∈ seen ∨ Misses p old) : Explored p later vertices :=
  fun old visited => (missed old visited).elim (explored old) .inl

end Explored

/-- A search finds nothing only where everything misses the position, and nothing around the position
is behind what it finds. -/
structure IsThorough (p : Position) (seen vertices : List graph.Vertex) (found : graph.Search) :
    Prop where
  begun : found.chain = [] → ∀ vertex ∈ vertices, Misses p vertex
  missed : found.chain = [] → ∀ vertex ∈ found.seen, vertex ∈ seen ∨ Misses p vertex
  deepest : IsDeepest p found.chain

theorem IsThorough.cons (thorough : IsThorough p later rest found) (missed : Misses p vertex)
    (visited : ∀ old ∈ later, old ∈ seen ∨ Misses p old) :
    IsThorough p seen (vertex :: rest) found := by
  refine ⟨fun nothing => List.forall_mem_cons.mpr ⟨missed, thorough.begun nothing⟩,
    fun nothing old seen => ?_, thorough.deepest⟩
  exact (thorough.missed nothing old seen).elim (visited old) .inr

/-- Where no vertex is below itself, searches are thorough: of the vertices that have been seen, those
above do not come up again. -/
theorem Finds.isThorough (finds : Finds p seen vertices found) (acyclic : IsAcyclic root)
    (below : ∀ vertex ∈ vertices, Relation.ReflTransGen Has root vertex)
    (explored : Explored p seen vertices) : IsThorough p seen vertices found := by
  induction finds with
  | nothing => exact ⟨fun _ => by simp, fun _ vertex old => .inl old, by simp [IsDeepest]⟩
  | @known _ _ _ vertex member others ih =>
    obtain ⟨here, below⟩ := List.forall_mem_cons.mp below
    have missed : Misses p vertex := (explored vertex member).resolve_right fun above =>
      acyclic vertex here (above vertex List.mem_cons_self)
    exact (ih below explored.others).cons missed fun _ => .inl
  | @elsewhere seen _ _ vertex range fresh placed outside others ih =>
    have missed := misses_of_outside placed outside
    have visited : ∀ old ∈ vertex :: seen, old ∈ seen ∨ Misses p old :=
      List.forall_mem_cons.mpr ⟨.inr missed, fun _ => .inl⟩
    exact (ih (List.forall_mem_cons.mp below).2 (explored.others.more visited)).cons missed visited
  | @barren seen later _ _ vertex fresh unplaced inside others insideIH othersIH =>
    obtain ⟨here, below⟩ := List.forall_mem_cons.mp below
    have children := insideIH (fun child held => here.tail held) explored.below
    have missed : Misses p vertex := ⟨not_isAround_of_unplaced unplaced, fun _ child leads =>
      not_isAround_of_misses (children.begun rfl) leads⟩
    have visited : ∀ old ∈ later, old ∈ seen ∨ Misses p old := fun old later => by
      rcases children.missed rfl old later with member | away
      · exact (List.mem_cons.mp member).elim (fun same => .inr (same ▸ missed)) .inl
      · exact .inr away
    exact (othersIH below (explored.others.more visited)).cons missed visited
  | @passed _ _ _ vertex fresh unplaced inside filled ih =>
    have here := (List.forall_mem_cons.mp below).1
    have children := ih (fun child held => here.tail held) explored.below
    exact ⟨fun nothing => absurd nothing filled, fun nothing => absurd nothing filled,
      children.deepest⟩
  | @around _ found _ vertex fresh around inside ih =>
    have here := (List.forall_mem_cons.mp below).1
    have children := ih (fun child held => here.tail held) explored.below
    refine ⟨nofun, nofun, fun focus last child leads => ?_⟩
    by_cases nothing : found.chain = []
    · obtain rfl : vertex = focus := by simpa [nothing] using last
      exact not_isAround_of_misses (children.begun nothing) leads
    · rw [List.getLast?_cons_of_ne_nil nothing] at last
      exact children.deepest focus last child leads

/-! ## Graphs without shared nodes -/

/-- The vertex that is reached through some slots, one after the other. -/
def at? : graph.Vertex → List Slot → Option graph.Vertex
  | vertex, [] => some vertex
  | vertex, slot :: address =>
    ((NodeLike.layer vertex).slots.lookup slot).bind fun child => at? child address

/-- No vertex is reached from the root in two ways. -/
def IsUnshared (root : graph.Vertex) : Prop :=
  ∀ left right vertex, at? root left = some vertex → at? root right = some vertex → left = right

theorem at?_append (vertex : graph.Vertex) (address below : List Slot) :
    at? vertex (address ++ below) = (at? vertex address).bind fun reached => at? reached below := by
  induction address generalizing vertex with
  | nil => rfl
  | cons slot address ih =>
    rw [List.cons_append, at?, at?]
    cases (NodeLike.layer vertex).slots.lookup slot with
    | none => rfl
    | some child => exact ih child

theorem exists_slot_of_has (has : Has vertex child) :
    ∃ slot, at? vertex [slot] = some child := by
  obtain ⟨⟨slot, held⟩, member, rfl⟩ := List.mem_map.mp has
  exact ⟨slot, by rw [at?, Layer.lookup_slots_eq_some.mpr member]; rfl⟩

theorem exists_address (below : Relation.ReflTransGen Has root vertex) :
    ∃ address, at? root address = some vertex := by
  induction below with
  | refl => exact ⟨[], rfl⟩
  | tail below has ih =>
    obtain ⟨address, found⟩ := ih
    obtain ⟨slot, held⟩ := exists_slot_of_has has
    exact ⟨address ++ [slot], by rw [at?_append, found]; exact held⟩

/-- A way around leads to a vertex in two ways. -/
theorem IsUnshared.isAcyclic (unshared : IsUnshared root) : IsAcyclic root := by
  intro vertex below around
  obtain ⟨child, has, back⟩ := Relation.TransGen.head'_iff.mp around
  obtain ⟨address, found⟩ := exists_address below
  obtain ⟨slot, held⟩ := exists_slot_of_has has
  obtain ⟨further, reached⟩ := exists_address back
  have again : at? root (address ++ ([slot] ++ further)) = some vertex := by
    rw [at?_append, found, Option.bind_some, at?_append, held, Option.bind_some, reached]
  have same := unshared _ _ _ found again
  simp at same

/-! ## Trails -/

theorem map_node_visitsAlong (vertices : List graph.Vertex) :
    (visitsAlong vertices).map Visit.node = vertices := by
  have behind (before : graph.Vertex) : (visitsBehind before vertices).map Visit.node = vertices := by
    induction vertices generalizing before with
    | nil => rfl
    | cons vertex rest ih => rw [visitsBehind, List.map_cons, ih]
  cases vertices with
  | nil => rfl
  | cons vertex rest =>
    have same := behind vertex
    rw [visitsBehind, List.map_cons] at same
    rw [visitsAlong, List.map_cons, (List.cons.inj same).2]

theorem trailTo?_eq_none_iff : trailTo? root p = none ↔ chainAt root p = [] := by
  rw [trailTo?, Trail.ofVisits?]
  cases chainAt root p with
  | nil => simp [visitsAlong]
  | cons vertex rest => simp [visitsAlong]

/-- How a position of a graph is resolved from some root. The search ends. The nodes on the trail are
around the position, each of them leads to the next, and none of them occurs twice. If no node is
shared, what the node in focus leads to is not around the position. There is no trail exactly if the
root came from elsewhere or, without a place itself, leads to nothing around the position. -/
structure Resolves (root : graph.Vertex) (p : Position) : Prop where
  ends (found : graph.Search) : Finds p [] [root] found ↔ found = search p graph.size [] root
  around {trail : Trail graph.Vertex} (gives : trailTo? root p = some trail) :
    ∀ visit ∈ trail.visits, IsAround p visit.node
  first {trail : Trail graph.Vertex} (gives : trailTo? root p = some trail) :
    ∀ visit ∈ trail.visits.head?, visit.node = root ∨
      NodeLike.range root = none ∧ LeadsTo root visit.node
  linked {trail : Trail graph.Vertex} (gives : trailTo? root p = some trail) :
    (trail.visits.map Visit.node).IsChain LeadsTo
  distinct {trail : Trail graph.Vertex} (gives : trailTo? root p = some trail) :
    (trail.visits.map Visit.node).Nodup
  focused {trail : Trail graph.Vertex} (gives : trailTo? root p = some trail) :
    ∃ focus, trail.focus? = some focus ∧ trail.visits.getLast? = some focus ∧
      (IsUnshared root → ∀ child, LeadsTo focus.node child → ¬ IsAround p child)
  nothing : trailTo? root p = none ↔
    (∃ range, NodeLike.range root = some range ∧ range.contains p = false) ∨
      NodeLike.range root = none ∧ ∀ child, LeadsTo root child → ¬ IsAround p child

theorem misses_iff : Misses p vertex ↔
    (∃ range, NodeLike.range vertex = some range ∧ range.contains p = false) ∨
      NodeLike.range vertex = none ∧ ∀ child, LeadsTo vertex child → ¬ IsAround p child := by
  constructor
  · rintro ⟨away, further⟩
    cases placed : NodeLike.range vertex with
    | none => exact .inr ⟨rfl, further placed⟩
    | some range =>
      exact .inl ⟨range, rfl, eq_false_of_ne_true fun inside => away ⟨range, placed, inside⟩⟩
  · rintro (⟨range, placed, outside⟩ | ⟨unplaced, further⟩)
    · exact misses_of_outside placed outside
    · exact ⟨not_isAround_of_unplaced unplaced, fun _ => further⟩

/-- Every position of every graph is resolved. -/
theorem resolves_position (root : graph.Vertex) (p : Position) : Resolves root p := by
  have finds : Finds p [] [root] (search p graph.size [] root) := finds_iff.mpr rfl
  have sound := finds.isSound
  have nodes {trail : Trail graph.Vertex} (gives : trailTo? root p = some trail) :
      trail.visits.map Visit.node = (search p graph.size [] root).chain := by
    obtain ⟨before, visit, visits, rfl⟩ := Trail.exists_of_ofVisits? gives
    rw [← visits]
    exact map_node_visitsAlong _
  refine ⟨fun found => finds_iff, ?_, ?_, ?_, ?_, ?_, ?_⟩
  · intro trail gives visit member
    exact sound.around _ (nodes gives ▸ List.mem_map_of_mem member)
  · intro trail gives visit head
    have head : visit.node ∈ (search p graph.size [] root).chain.head? := by
      rw [← nodes gives, List.head?_map]
      exact Option.mem_map_of_mem _ head
    obtain ⟨start, member, begins⟩ := sound.first _ head
    rwa [List.mem_singleton.mp member] at begins
  · intro trail gives
    rw [nodes gives]
    exact sound.linked
  · intro trail gives
    rw [nodes gives]
    exact sound.distinct
  · intro trail gives
    have same := nodes gives
    obtain ⟨before, visit, -, rfl⟩ := Trail.exists_of_ofVisits? gives
    refine ⟨visit, ?_, by simp, fun unshared => ?_⟩
    · rw [Trail.focus?, Text.item?_natCast]
      simp
    · have thorough := finds.isThorough unshared.isAcyclic
        (List.forall_mem_singleton.mpr .refl) fun _ member => nomatch member
      exact thorough.deepest visit.node (by rw [← same]; simp)
  · rw [trailTo?_eq_none_iff, chainAt_eq_nil_iff, misses_iff]

/-- A block without a place around two texts, whose ranges overlap. -/
def overlapping : Graph :=
  ofTable #[(none, .block [1, 2] []), (some ⟨⟨0, 0⟩, ⟨0, 2⟩⟩, .text "ab"),
    (some ⟨⟨0, 1⟩, ⟨0, 3⟩⟩, .text "bc")] (by decide)

def overlapping.part (number : Fin 3) : overlapping.Vertex := ⟨number⟩

open overlapping in
theorem isUnshared_overlapping : IsUnshared (part 0) := by
  have block : (NodeLike.layer (part 0)).slots = [(.body 0, part 1), (.body 1, part 2)] := rfl
  have leaf (number : Fin 3) (inner : number ≠ 0) : (NodeLike.layer (part number)).slots = [] := by
    decide +revert
  have addresses {address : List Slot} {reached : overlapping.Vertex}
      (found : at? (part 0) address = some reached) : (address, reached) ∈
        [([], part 0), ([.body 0], part 1), ([.body 1], part 2)] := by
    cases address with
    | nil =>
      cases found
      simp
    | cons slot address =>
      obtain ⟨child, held, found⟩ := Option.bind_eq_some_iff.mp found
      have held := Layer.lookup_slots_eq_some.mp held
      rw [block] at held
      simp only [List.mem_cons, Prod.mk.injEq, List.not_mem_nil, or_false] at held
      have ends : address = [] ∧ child = reached := by
        cases address with
        | nil => exact ⟨rfl, Option.some.inj found⟩
        | cons next address =>
          have bare : (NodeLike.layer child).slots = [] := by
            rcases held with ⟨-, rfl⟩ | ⟨-, rfl⟩
            · exact leaf 1 (by decide)
            · exact leaf 2 (by decide)
          rw [at?, bare] at found
          cases found
      obtain ⟨rfl, rfl⟩ := ends
      simpa using held
  intro left right reached first second
  have first := addresses first
  have second := addresses second
  have differ : part 0 ≠ part 1 ∧ part 0 ≠ part 2 ∧ part 1 ≠ part 2 := by decide
  simp only [List.mem_cons, Prod.mk.injEq, List.not_mem_nil, or_false] at first second
  rcases first with ⟨rfl, rfl⟩ | ⟨rfl, rfl⟩ | ⟨rfl, rfl⟩ <;> grind

open overlapping in
theorem resolves_where_texts_overlap : IsUnshared (part 0) ∧ ∃ trail,
    trailTo? (part 0) ⟨0, 1⟩ = some trail ∧ trail.visits.map Visit.node = [part 1] ∧
      (trail.visits.map Visit.node).Nodup ∧ ∃ focus, trail.focus? = some focus ∧
        ∀ child, LeadsTo focus.node child → ¬ IsAround ⟨0, 1⟩ child := by
  have chain : chainAt (part 0) ⟨0, 1⟩ = [part 1] := by decide +kernel
  have gives : trailTo? (part 0) ⟨0, 1⟩ = some ⟨[⟨part 1, []⟩], 0⟩ := by
    rw [trailTo?, chain]
    rfl
  have resolves := resolves_position (part 0) ⟨0, 1⟩
  obtain ⟨focus, at_, -, deepest⟩ := resolves.focused gives
  exact ⟨isUnshared_overlapping, _, gives, rfl, resolves.distinct gives, focus, at_,
    deepest isUnshared_overlapping⟩

end EmberAssist.Template.Graph
