import EmberAssist.Template.Trail

/-! Nodes that may be shared: a finite graph in which a node can be held by several others, or even by
one of its own descendants. -/
namespace EmberAssist.Template

/-- A node of a graph with `size` nodes, its children given by number. -/
structure Cell (size : Nat) where
  range : Option Range
  layer : Layer (Fin size)

/-- A finite graph of nodes. -/
structure Graph where
  size : Nat
  cells : Vector (Cell size) size

namespace Graph

/-- The graph of a table of nodes whose children are given by their places in the table; places behind
its end start over from the beginning. -/
def ofTable (table : Array (Option Range × Layer Nat)) (nonempty : 0 < table.size) : Graph where
  size := table.size
  cells := Vector.ofFn fun number =>
    let (range, layer) := table[number]
    ⟨range, layer.map fun child => ⟨child % table.size, Nat.mod_lt child nonempty⟩⟩

/-- A node of a graph, by its number. -/
structure Vertex (graph : Graph) where
  number : Fin graph.size
deriving DecidableEq

variable (graph : Graph)

/-- What stands at a vertex. -/
def cell (vertex : graph.Vertex) : Cell graph.size := graph.cells[vertex.number]

instance : NodeLike graph.Vertex where
  layer vertex := (graph.cell vertex).layer.map Vertex.mk
  range vertex := (graph.cell vertex).range

/-- The vertices on a chain and all that have been visited in search of it. -/
structure Search where
  chain : List graph.Vertex
  seen : List graph.Vertex

variable {graph}

/-- Searches below the vertices of a list one after the other, passing over those that have been
visited, until a chain is found. -/
def searchAll (search : List graph.Vertex → graph.Vertex → graph.Search)
    (seen : List graph.Vertex) : List graph.Vertex → graph.Search
  | [] => ⟨[], seen⟩
  | vertex :: rest =>
    if vertex ∈ seen then searchAll search seen rest
    else
      match search seen vertex with
      | ⟨[], seen⟩ => searchAll search seen rest
      | found => found

/-- Searches at a vertex that has not been visited for the chain of placed nodes around a position. No
chain of visits is deeper than the number of vertices. -/
def search (p : Position) : Nat → List graph.Vertex → graph.Vertex → graph.Search
  | 0, seen, _ => ⟨[], seen⟩
  | depth + 1, seen, vertex =>
    let seen := vertex :: seen
    let below (_ : Unit) :=
      searchAll (search p depth) seen (NodeLike.layer vertex).children
    match NodeLike.range vertex with
    | none => below ()
    | some range =>
      if range.contains p then
        let found := below ()
        ⟨vertex :: found.chain, found.seen⟩
      else ⟨[], seen⟩

/-- The chain of placed nodes around a position, from the outermost to the innermost
(`_find_focus_path`). -/
def chainAt (root : graph.Vertex) (p : Position) : List graph.Vertex :=
  (search p graph.size [] root).chain

/-- The slots of a vertex that hold another. -/
def slotsOf (vertex child : graph.Vertex) : List Slot :=
  ((NodeLike.layer vertex).slots.filter fun (_, held) => held = child).map (·.1)

/-- The visits along vertices behind a given one. -/
def visitsBehind (before : graph.Vertex) : List graph.Vertex → List (Visit graph.Vertex)
  | [] => []
  | vertex :: rest => ⟨vertex, slotsOf before vertex⟩ :: visitsBehind vertex rest

/-- The visits along a list of vertices. -/
def visitsAlong : List graph.Vertex → List (Visit graph.Vertex)
  | [] => []
  | vertex :: rest => ⟨vertex, []⟩ :: visitsBehind vertex rest

/-- The trail to the innermost node around a position (`resolve`). -/
def trailTo? (root : graph.Vertex) (p : Position) : Option (Trail graph.Vertex) :=
  Trail.ofVisits? (visitsAlong (chainAt root p))

/-- The trail along vertices that are given, with one of them in focus or else the last (`AstPath`). A
trail has at least one node. -/
def trailAlong? (vertices : List graph.Vertex) (index : Option Int) : Option (Trail graph.Vertex) :=
  if vertices.isEmpty then none
  else some ⟨visitsAlong vertices, index.getD (vertices.length - 1)⟩

end Graph

end EmberAssist.Template
