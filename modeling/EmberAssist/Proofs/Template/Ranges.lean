import EmberAssist.Proofs.Template.Descent
import EmberAssist.Proofs.Template.Laminar

/-! Where the nodes of a template came from. Everything that is read between two inputs stands
between their offsets, in the order in which it was read, so the tree of a text is laminar. -/
namespace EmberAssist.Template

variable {depth : Nat} {production : Production} {yield : Yield}
variable {input opened inner behind next stop closed : Input}
variable {low middle high : Nat} {nodes left right : List (Node Span)}

namespace Layer

@[simp] theorem children_elementLayer (tag : List Char) (content : TagContent)
    (inside : List (Node Span)) :
    (elementLayer tag content inside).children = content.nodes ++ inside := children_element ..

@[simp] theorem children_wordLayer {α : Type} (word : List Char) :
    (wordLayer word : Layer α).children = [] := by
  simp only [wordLayer]
  split_ifs <;> rfl

end Layer

namespace TagContent

theorem nodes_withModifier (node : Node Span) (content : TagContent) :
    (node :: content.nodes).Perm (content.withModifier node).nodes := by
  simp only [nodes, withModifier, List.append_assoc, List.cons_append]
  exact List.perm_middle.symm

theorem nodes_withComment (node : Node Span) (content : TagContent) :
    (node :: content.nodes).Perm (content.withComment node).nodes := List.perm_middle.symm

end TagContent

/-! ## Nodes with a place -/

/-- Where a construct begins: an expression only behind blanks. -/
def Production.start : Production → Input → Input
  | .expression, input => input.skipBlank
  | _, input => input

/-- A single node that is read has a place. -/
theorem Reads.range {node : Node Span} (reads : Reads depth production input (.node node) closed) :
    node.range = some ⟨(production.start input).offset, closed.offset⟩ := by
  cases reads with
  | string plain quoted read =>
    obtain ⟨value, -, rfl⟩ := readString_eq_ok.mp read
    rfl
  | word plain bare read =>
    rcases readWord_eq_ok.mp read with ⟨number, -, rfl⟩ | ⟨-, word, -, rfl⟩ <;> rfl
  | mustacheComment opens comment =>
    obtain ⟨value, -, rfl⟩ := readMustacheComment_eq_ok.mp comment
    rfl
  | comment plain bare opens comment =>
    obtain ⟨value, -, rfl⟩ := readComment_eq_ok.mp comment
    rfl
  | _ => rfl

/-- A single node is read from some characters, unless nothing is left of the text. -/
theorem Reads.lt {node : Node Span} (reads : Reads depth production input (.node node) closed)
    (more : production = .statement → input.atEnd = false) :
    production.start input < closed := by
  cases reads with
  | subExpression opens invoked closes =>
    exact (Input.lt_of_eat? opens).trans_le (invoked.le.trans
      ((Input.le_skipBlank _).trans (Input.le_of_eat? closes)))
  | string plain quoted read => exact lt_of_readString quoted read
  | word plain bare read => exact lt_of_readWord read
  | mustacheValue opens invoked => exact (Input.lt_of_eat? opens).trans_le invoked.le
  | quotedValue plain quoted inside =>
    obtain ⟨rest, ahead, -⟩ := quoteAhead_eq_some.mp quoted
    exact (Input.lt_skipOptional_of_head ahead).trans_le inside.le
  | bareValue plain bare taken => exact Input.lt_of_takeSome? taken
  | valueless named ends => exact Input.lt_of_takeSome? named
  | attr named equals assigned =>
    exact (Input.lt_of_takeSome? named).trans_le ((Input.le_of_eat? equals).trans assigned.le)
  | mustacheComment opens comment =>
    exact (Input.lt_of_commentOpen? opens).trans_le (le_of_readMustacheComment comment)
  | block plain opens block hash tag tail =>
    exact (Input.lt_of_eat? opens).trans_le ((Input.le_skipTilde _).trans
      ((Input.le_of_eat? hash).trans (tag.le.trans tail.le)))
  | mustacheStatement plain opens single invoked =>
    exact (Input.lt_of_eat? opens).trans_le invoked.le
  | comment plain bare opens comment =>
    exact (Input.lt_of_eat? opens).trans_le (le_of_readComment comment)
  | element plain bare visible tagged read =>
    obtain ⟨opened, opens, named⟩ := Option.bind_eq_some_iff.mp tagged
    exact (Input.lt_of_eat? opens).trans_le ((Input.le_of_tagName? named).trans read.le)
  | text => exact Input.lt_takeText (more rfl)

/-- Every node of a list has a place. -/
def AllPlaced (nodes : List (Node Span)) : Prop := ∀ node ∈ nodes, ∃ place, node.range = some place

namespace AllPlaced
variable {node : Node Span} {place : Span}

theorem nil : AllPlaced [] := by
  intro node member
  cases member

theorem append (first : AllPlaced left) (second : AllPlaced right) : AllPlaced (left ++ right) :=
  fun node member => (List.mem_append.mp member).elim (first node) (second node)

theorem cons (here : node.range = some place) (rest : AllPlaced nodes) :
    AllPlaced (node :: nodes) := by
  intro other member
  rcases List.mem_cons.mp member with rfl | member
  · exact ⟨place, here⟩
  · exact rest other member

theorem perm (placed : AllPlaced left) (same : left.Perm right) : AllPlaced right :=
  fun node member => placed node (same.mem_iff.mpr member)

end AllPlaced

/-- Of what an invocation hands on, only named arguments that are missing have no place. -/
structure Call.Placed (call : Call (Node Span)) : Prop where
  callee : ∃ place, call.callee.range = some place
  params : AllPlaced call.params
  hash : ∃ pairs, call.hash = hashOf pairs ∧ AllPlaced pairs

/-- What a construct hands on has a place where its rules give it one. -/
def Yield.Placed : Yield → Prop
  | .node single => AllPlaced [single]
  | .call found | .mustache found _ | .blockTag found _ => found.Placed
  | .arguments params pairs => AllPlaced params ∧ AllPlaced pairs
  | .list several => AllPlaced several
  | .content found => AllPlaced found.nodes
  | .blockTail program _ => AllPlaced [program]
  | .element found children => AllPlaced (found.nodes ++ children)

private theorem placed_textPiece {chars : List Char} : AllPlaced (textPiece input stop chars) := by
  unfold textPiece
  split
  · exact .nil
  · exact .cons rfl .nil

theorem Reads.placed (reads : Reads depth production input yield closed) : yield.Placed := by
  induction reads with
  | call called given _ givenIH => exact ⟨⟨_, called.range⟩, givenIH.1, _, rfl, givenIH.2⟩
  | noArguments => exact ⟨.nil, .nil⟩
  | named _ _ _ _ _ restIH => exact ⟨restIH.1, .cons rfl restIH.2⟩
  | positional _ _ given _ _ restIH => exact ⟨.cons given.range restIH.1, restIH.2⟩
  | trusting _ _ _ ih | mustache _ _ _ ih | modifier _ _ ih | blockTag _ _ _ ih => exact ih
  | lastPiece => exact placed_textPiece
  | pieces _ _ _ _ _ _ restIH => exact AllPlaced.append placed_textPiece (.cons rfl restIH)
  | selfClosed | tagEnd | noStatements => exact AllPlaced.nil
  | tagComment _ opens comment _ ih =>
    obtain ⟨value, -, rfl⟩ := readMustacheComment_eq_ok.mp comment
    exact AllPlaced.perm (.cons rfl ih) (TagContent.nodes_withComment _ _)
  | tagModifier _ _ _ _ _ _ restIH =>
    exact AllPlaced.perm (.cons rfl restIH) (TagContent.nodes_withModifier _ _)
  | tagParams _ _ _ _ _ ih => exact ih
  | tagAttribute _ _ _ _ taken _ _ restIH => exact AllPlaced.cons taken.range restIH
  | statements _ head _ _ restIH => exact AllPlaced.cons head.range restIH
  | blockEnd | blockElse | blockChain => exact AllPlaced.cons rfl .nil
  | bareElement _ _ ih => exact AllPlaced.append ih .nil
  | filledElement _ _ _ _ _ startIH insideIH => exact AllPlaced.append startIH insideIH
  | string plain quoted read =>
    obtain ⟨value, -, rfl⟩ := readString_eq_ok.mp read
    exact AllPlaced.cons rfl .nil
  | word plain bare read =>
    rcases readWord_eq_ok.mp read with ⟨number, -, rfl⟩ | ⟨-, word, -, rfl⟩ <;>
      exact AllPlaced.cons rfl .nil
  | mustacheComment opens comment =>
    obtain ⟨value, -, rfl⟩ := readMustacheComment_eq_ok.mp comment
    exact AllPlaced.cons rfl .nil
  | comment plain bare opens comment =>
    obtain ⟨value, -, rfl⟩ := readComment_eq_ok.mp comment
    exact AllPlaced.cons rfl .nil
  | _ => exact AllPlaced.cons rfl .nil

/-! ## Nodes in a stretch of text -/

/-- Nodes stand one behind the other between two offsets, each with its parts inside. -/
structure Laid (low high : Nat) (nodes : List (Node Span)) : Prop where
  laminar : ∀ node ∈ nodes, node.Laminar
  ordered : (nodes.flatMap Node.front).Pairwise fun one other => one.stop ≤ other.start
  within : ∀ place ∈ nodes.flatMap Node.front,
    low ≤ place.start ∧ place.start ≤ place.stop ∧ place.stop ≤ high

namespace Laid

theorem nil : Laid low high [] := ⟨by simp, by simp, by simp⟩

theorem mono {lower higher : Nat} (laid : Laid low high nodes) (below : lower ≤ low)
    (above : high ≤ higher) : Laid lower higher nodes := by
  refine ⟨laid.laminar, laid.ordered, fun place member => ?_⟩
  obtain ⟨first, order, last⟩ := laid.within place member
  omega

theorem append (first : Laid low middle left) (second : Laid middle high right)
    (below : low ≤ middle) (above : middle ≤ high) : Laid low high (left ++ right) := by
  refine ⟨?_, ?_, ?_⟩
  · intro node member
    exact (List.mem_append.mp member).elim (first.laminar node) (second.laminar node)
  · rw [List.flatMap_append]
    refine List.pairwise_append.mpr ⟨first.ordered, second.ordered, fun one member other later => ?_⟩
    have := (first.within one member).2.2
    have := (second.within other later).1
    omega
  · rw [List.flatMap_append]
    intro place member
    rcases List.mem_append.mp member with member | member
    · obtain ⟨_, _, _⟩ := first.within place member
      omega
    · obtain ⟨_, _, _⟩ := second.within place member
      omega

/-- The order of reading tells which parts are apart. -/
theorem apart (laid : Laid low high nodes) : (nodes.flatMap Node.front).Pairwise Apart :=
  laid.ordered.imp fun before => .inl before

/-- A node around what was read, listed in whatever order. -/
theorem around {layer : Layer (Node Span)} (laid : Laid low high nodes)
    (same : nodes.Perm layer.children) (order : low ≤ high) :
    Laid low high [.mk (some ⟨low, high⟩) layer] := by
  have fronts := same.flatMap_right Node.front
  have laminar : (Node.mk (some ⟨low, high⟩) layer).Laminar := by
    refine .mk (fun child member => laid.laminar child (same.mem_iff.mpr member)) ?_ ?_
    · exact fronts.pairwise laid.apart Apart.symm
    · rintro place ⟨⟩
      refine ⟨order, fun inner member => ?_⟩
      obtain ⟨first, -, last⟩ := laid.within inner (fronts.mem_iff.mpr member)
      exact ⟨first, last⟩
  exact ⟨by simpa using laminar, by simp, by simpa using order⟩

/-- A node without a place around what was read. -/
theorem unplaced {layer : Layer (Node Span)} (laid : Laid low high nodes)
    (same : layer.children = nodes) : Laid low high [.mk none layer] := by
  subst same
  have laminar : (Node.mk none layer : Node Span).Laminar := .mk laid.laminar laid.apart (by simp)
  exact ⟨by simpa using laminar, by simpa using laid.ordered, by simpa using laid.within⟩

/-- What comes last in a stretch can be told from what comes before. -/
theorem of_append (laid : Laid low high (left ++ right)) :
    Laid low high left ∧ Laid low high right := by
  have within := laid.within
  have ordered := laid.ordered
  simp only [List.flatMap_append, List.mem_append] at within ordered
  exact ⟨⟨fun node member => laid.laminar node (List.mem_append_left _ member),
      (List.pairwise_append.mp ordered).1, fun place member => within place (.inl member)⟩,
    ⟨fun node member => laid.laminar node (List.mem_append_right _ member),
      (List.pairwise_append.mp ordered).2.1, fun place member => within place (.inr member)⟩⟩

end Laid

/-! ## Named arguments -/

/-- No positional argument follows a named one. -/
theorem Reads.no_params {params pairs : List (Node Span)}
    (reads : Reads depth (.arguments true) input (.arguments params pairs) closed) :
    params = [] := by
  generalize asked : Production.arguments true = production at reads
  generalize given : Yield.arguments params pairs = yield at reads
  induction reads generalizing params pairs with
  | noArguments =>
    cases given
    rfl
  | named _ _ _ _ _ ih =>
    cases given
    exact ih rfl rfl
  | _ => cases asked

private theorem spans_of_placed {pairs : List (Node Span)}
    (placed : AllPlaced pairs) :
    pairs.map Node.range = (pairs.flatMap Node.front).map some := by
  induction pairs with
  | nil => rfl
  | cons pair rest ih =>
    obtain ⟨place, here⟩ := placed pair (by simp)
    have others := ih fun pair member => placed pair (List.mem_cons_of_mem _ member)
    simp [Node.front_of_range here, here, others]

private theorem first_le_and_le_last {spans : List Span} {first last : Span}
    (ordered : spans.Pairwise fun one other => one.stop ≤ other.start)
    (forward : ∀ place ∈ spans, place.start ≤ place.stop) (head : spans.head? = some first)
    (tail : spans.getLast? = some last) :
    ∀ place ∈ spans, first.start ≤ place.start ∧ place.stop ≤ last.stop := by
  intro place member
  constructor
  · obtain ⟨rest, rfl⟩ := List.head?_eq_some_iff.mp head
    rcases List.mem_cons.mp member with rfl | later
    · exact le_refl _
    · have := (List.pairwise_cons.mp ordered).1 place later
      have := forward first (by simp)
      omega
  · obtain ⟨before, rfl⟩ := List.getLast?_eq_some_iff.mp tail
    rcases List.mem_append.mp member with earlier | same
    · have := (List.pairwise_append.mp ordered).2.2 place earlier last (by simp)
      have := forward last (by simp)
      omega
    · rw [List.mem_singleton.mp same]

theorem hashOf_eq {pairs : List (Node Span)} (filled : pairs ≠ [])
    (placed : AllPlaced pairs) :
    ∃ first last, (pairs.flatMap Node.front).head? = some first ∧
      (pairs.flatMap Node.front).getLast? = some last ∧
      hashOf pairs = .mk (some ⟨first.start, last.stop⟩) (.hash pairs) := by
  have spans := spans_of_placed placed
  generalize pairs.flatMap Node.front = fronts at spans
  have head : pairs.head?.bind Node.range = fronts.head? := by
    have := congrArg List.head? spans
    rw [List.head?_map, List.head?_map] at this
    cases front : pairs.head? <;> cases place : fronts.head? <;> simp_all
  have tail : pairs.getLast?.bind Node.range = fronts.getLast? := by
    have := congrArg List.getLast? spans
    rw [List.getLast?_map, List.getLast?_map] at this
    cases back : pairs.getLast? <;> cases place : fronts.getLast? <;> simp_all
  have some_ : fronts ≠ [] := by
    rintro rfl
    exact filled (List.map_eq_nil_iff.mp spans)
  refine ⟨fronts.head some_, fronts.getLast some_, List.head?_eq_some_head some_,
    List.getLast?_eq_some_getLast some_, ?_⟩
  simp only [hashOf, head, tail, List.head?_eq_some_head some_, List.getLast?_eq_some_getLast some_]

/-- Named arguments are held together by a node that spans them. -/
theorem Laid.hashed {params pairs : List (Node Span)} (laid : Laid low high (params ++ pairs))
    (placed : AllPlaced pairs) :
    Laid low high (params ++ [hashOf pairs]) := by
  obtain ⟨given, named⟩ := laid.of_append
  by_cases filled : pairs = []
  · subst filled
    have hash : (Node.mk none (.hash []) : Node Span).Laminar := .mk (by simp) (by simp) (by simp)
    refine ⟨?_, by simpa [hashOf] using given.ordered, by simpa [hashOf] using given.within⟩
    intro node member
    rcases List.mem_append.mp member with member | same
    · exact given.laminar node member
    · exact List.mem_singleton.mp same ▸ hash
  obtain ⟨first, last, head, tail, hash⟩ := hashOf_eq filled placed
  have bounds := first_le_and_le_last named.ordered (fun place member => (named.within place member).2.1)
    head tail
  have firstMember := List.mem_of_mem_head? head
  have lastMember := List.mem_of_mem_getLast? tail
  have order : first.start ≤ last.stop :=
    (named.within first firstMember).2.1.trans (bounds first firstMember).2
  have around : Laid first.start last.stop [hashOf pairs] := by
    rw [hash]
    refine Laid.around ⟨named.laminar, named.ordered, fun place member => ?_⟩ (by simp) order
    exact ⟨(bounds place member).1, (named.within place member).2.1, (bounds place member).2⟩
  refine ⟨?_, ?_, ?_⟩
  · intro node member
    exact (List.mem_append.mp member).elim (given.laminar node) (around.laminar node)
  · have ordered := laid.ordered
    rw [List.flatMap_append, List.pairwise_append] at ordered ⊢
    refine ⟨given.ordered, around.ordered, fun one member other same => ?_⟩
    have := ordered.2.2 one member first firstMember
    have := (around.within other same).1
    omega
  · rw [List.flatMap_append]
    intro place member
    rcases List.mem_append.mp member with member | member
    · exact given.within place member
    · have := around.within place member
      have := (named.within first firstMember).1
      have := (named.within last lastMember).2.2
      omega

/-! ## What is read -/

/-- What a construct hands on stands between two offsets. The content of a start tag is handed on
sort by sort, not in the order in which it was read. -/
def Yield.Laid (low high : Nat) : Yield → Prop
  | .content found => ∃ read, Template.Laid low high read ∧ read.Perm found.nodes
  | .element found children =>
    ∃ read, Template.Laid low high (read ++ children) ∧ read.Perm found.nodes
  | yield => Template.Laid low high yield.nodes

/-- A placed part of what stands in a stretch lies in the stretch. -/
theorem Laid.bounds {node part : Node Span} {place : Span} (laid : Laid low high nodes)
    (member : node ∈ nodes) (holds : node.Holds part) (placed : part.range = some place) :
    low ≤ place.start ∧ place.stop ≤ high := by
  obtain ⟨address, found⟩ := holds
  obtain ⟨outer, front, inside⟩ := (laid.laminar node member).inside_front found placed
  have within := laid.within outer (List.mem_flatMap.mpr ⟨node, member, front⟩)
  exact ⟨within.1.trans inside.1, inside.2.trans within.2.2⟩

section Between

/-- A node around what was read inside. -/
private theorem laid_around {layer : Layer (Node Span)}
    (laid : Laid opened.offset behind.offset nodes) (same : nodes.Perm layer.children)
    (before : input ≤ opened) (inside : opened ≤ behind) (after : behind ≤ closed) :
    Laid input.offset closed.offset [.between input closed layer] :=
  (laid.mono (Input.offset_le before) (Input.offset_le after)).around same
    (Input.offset_le (before.trans (inside.trans after)))

private theorem laid_leaf {layer : Layer (Node Span)} (order : input ≤ closed)
    (leaf : layer.children = []) : Laid input.offset closed.offset [.between input closed layer] :=
  Laid.nil.around (by rw [leaf]) (Input.offset_le order)

private theorem laid_wider (laid : Laid opened.offset behind.offset nodes)
    (before : input ≤ opened) (after : behind ≤ closed) : Laid input.offset closed.offset nodes :=
  laid.mono (Input.offset_le before) (Input.offset_le after)

private theorem laid_then (first : Laid input.offset stop.offset left)
    (second : Laid next.offset closed.offset right) (before : input ≤ stop) (gap : stop ≤ next)
    (after : next ≤ closed) : Laid input.offset closed.offset (left ++ right) :=
  first.append (second.mono (Input.offset_le gap) (le_refl _)) (Input.offset_le before)
    (Input.offset_le (gap.trans after))

private theorem laid_cons {node : Node Span} (first : Laid input.offset stop.offset [node])
    (second : Laid stop.offset closed.offset nodes) (before : input ≤ stop) (after : stop ≤ closed) :
    Laid input.offset closed.offset (node :: nodes) :=
  laid_then first second before (le_refl _) after

/-- One more node before the rest of a start tag. -/
private theorem laid_content {node : Node Span} {held found : List (Node Span)}
    (first : Laid input.skipBlank.offset stop.offset [node])
    (rest : ∃ read, Laid stop.offset closed.offset read ∧ read.Perm held)
    (same : (node :: held).Perm found) (before : input.skipBlank ≤ stop) (after : stop ≤ closed) :
    ∃ read, Laid input.offset closed.offset read ∧ read.Perm found := by
  obtain ⟨read, laid, others⟩ := rest
  exact ⟨node :: read, laid_wider (laid_cons first laid before after) (Input.le_skipBlank _)
    (le_refl _), (others.cons node).trans same⟩

private theorem laid_textPiece {chars : List Char} (order : input ≤ stop) :
    Laid input.offset stop.offset (textPiece input stop chars) := by
  unfold textPiece
  split
  · exact Laid.nil
  · exact laid_leaf order rfl

end Between

private theorem laid_invocation (reads : Reads depth production input yield closed)
    (level : production.level = .invocation) : yield.Laid input.offset closed.offset := by
  induction reads with
  | subExpression opens invoked closes ih =>
    exact laid_wider (laid_around (ih rfl) (by simp) (Input.le_of_eat? opens) invoked.le
      ((Input.le_skipBlank _).trans (Input.le_of_eat? closes))) (Input.le_skipBlank _) (le_refl _)
  | string plain quoted read =>
    obtain ⟨value, -, rfl⟩ := readString_eq_ok.mp read
    exact laid_wider (laid_leaf (lt_of_readString quoted read).le rfl) (Input.le_skipBlank _)
      (le_refl _)
  | word plain bare read =>
    rcases readWord_eq_ok.mp read with ⟨number, -, rfl⟩ | ⟨-, word, -, rfl⟩
    · exact laid_wider (laid_leaf (lt_of_readWord read).le rfl) (Input.le_skipBlank _) (le_refl _)
    · exact laid_wider (laid_leaf (lt_of_readWord read).le (by simp)) (Input.le_skipBlank _) (le_refl _)
  | call called given calledIH givenIH =>
    exact laid_then (calledIH rfl) ((givenIH rfl).hashed given.placed.2) called.le (le_refl _) given.le
  | noArguments => exact Laid.nil
  | named goesOn named assigned rest assignedIH restIH =>
    cases rest.no_params
    have name := Input.le_of_argumentName? named
    exact laid_wider (laid_cons (laid_around (assignedIH rfl) (by simp) name assigned.le
      (le_refl _)) (restIH rfl) (name.trans assigned.le) rest.le) (Input.le_skipBlank _) (le_refl _)
  | positional goesOn unnamed given rest givenIH restIH =>
    exact laid_wider (laid_cons (givenIH rfl) (restIH rfl) given.le rest.le) (Input.le_skipBlank _)
      (le_refl _)
  | _ => cases level

private theorem laid_braces (reads : Reads depth production input yield closed)
    (level : production.level = .braces) : yield.Laid input.offset closed.offset := by
  cases reads with
  | trusting third invoked closes =>
    exact laid_wider (laid_invocation invoked rfl) ((Input.le_of_eat? third).trans (Input.le_skipTilde _))
      ((Input.le_skipTilde _).trans (Input.le_of_eat? closes))
  | mustache plain invoked closes | modifier invoked closes =>
    exact laid_wider (laid_invocation invoked rfl) (Input.le_skipTilde _)
      ((Input.le_skipTilde _).trans (Input.le_of_eat? closes))
  | blockTag invoked declared closes =>
    exact laid_wider (laid_invocation invoked rfl) (le_refl _) ((Input.le_skipBlank _).trans
      ((Input.le_of_declared declared).trans
        ((Input.le_skipTilde _).trans (Input.le_of_eat? closes))))
  | _ => cases level

private theorem laid_value (reads : Reads depth production input yield closed)
    (level : production.level = .value) : yield.Laid input.offset closed.offset := by
  induction reads with
  | lastPiece upTo more closes =>
    exact laid_wider (laid_textPiece (Input.le_of_takeUntil upTo)) (le_refl _)
      (Input.le_of_eat? closes)
  | pieces upTo more open_ invoked rest _ restIH =>
    have text := Input.le_of_takeUntil upTo
    have mustache := (Input.le_skipOptional _ _).trans invoked.le
    exact laid_then (laid_textPiece text) (laid_cons (laid_around (laid_braces invoked rfl) (by simp)
      (Input.le_skipOptional _ _) invoked.le (le_refl _)) (restIH rfl) mustache rest.le) text (le_refl _)
      (mustache.trans rest.le)
  | mustacheValue opens invoked =>
    exact laid_around (laid_braces invoked rfl) (by simp) (Input.le_of_eat? opens) invoked.le (le_refl _)
  | @quotedValue _ _ _ _ pieces plain quoted inside ih =>
    by_cases invoked : pieces.any isMustache
    · exact laid_around (ih rfl) (by simp [Template.quotedValue, invoked])
        (Input.le_skipOptional _ _) inside.le (le_refl _)
    · exact laid_leaf ((Input.le_skipOptional _ _).trans inside.le)
        (by simp only [Template.quotedValue, invoked]; rfl)
  | bareValue plain bare taken => exact laid_leaf (Input.le_of_takeSome? taken) rfl
  | valueless named ends =>
    exact Laid.around (Laid.nil.unplaced rfl) (.refl _) (Input.offset_le (Input.le_of_takeSome? named))
  | attr named equals assigned ih =>
    exact laid_around (ih rfl) (by simp)
      ((Input.le_of_takeSome? named).trans (Input.le_of_eat? equals)) assigned.le (le_refl _)
  | _ => cases level

private theorem laid_startTag (reads : Reads depth production input yield closed)
    (level : production.level = .startTag) : yield.Laid input.offset closed.offset := by
  induction reads with
  | selfClosed more closes => exact ⟨[], Laid.nil, .refl _⟩
  | tagEnd more open_ closes => exact ⟨[], Laid.nil, .refl _⟩
  | tagComment stays opens comment rest ih =>
    have order := (Input.le_of_commentOpen? opens).trans (le_of_readMustacheComment comment)
    obtain ⟨value, -, rfl⟩ := readMustacheComment_eq_ok.mp comment
    exact laid_content (laid_leaf order rfl) (ih rfl) (TagContent.nodes_withComment _ _) order rest.le
  | tagModifier stays plain opens invoked rest _ restIH =>
    exact laid_content (laid_around (laid_braces invoked rfl) (by simp) (Input.le_of_eat? opens)
      invoked.le (le_refl _)) (restIH rfl) (TagContent.nodes_withModifier _ _)
      ((Input.le_of_eat? opens).trans invoked.le) rest.le
  | tagParams stays plain bare declared rest ih =>
    obtain ⟨read, laid, same⟩ := ih rfl
    exact ⟨read, laid_wider laid ((Input.le_skipBlank _).trans (Input.le_of_blockParams? declared))
      (le_refl _), same⟩
  | tagAttribute stays plain bare undeclared taken rest _ restIH =>
    exact laid_content (laid_value taken rfl) (restIH rfl) (.refl _) taken.le rest.le
  | _ => cases level

private theorem laid_statements (reads : Reads depth production input yield closed)
    (level : production.level = .content) : yield.Laid input.offset closed.offset := by
  induction reads with
  | noStatements ends => exact Laid.nil
  | statements goesOn head rest headIH restIH =>
    exact laid_cons (headIH rfl) (restIH rfl) head.le rest.le
  | mustacheComment opens comment =>
    have order := (Input.le_of_commentOpen? opens).trans (le_of_readMustacheComment comment)
    obtain ⟨value, -, rfl⟩ := readMustacheComment_eq_ok.mp comment
    exact laid_leaf order rfl
  | block plain opens block hash tag tail _ tailIH =>
    have inside := laid_then (laid_braces tag rfl) (tailIH rfl) tag.le (le_refl _) tail.le
    exact laid_around inside (by simp) ((Input.le_of_eat? opens).trans
      ((Input.le_skipTilde _).trans (Input.le_of_eat? hash))) (tag.le.trans tail.le) (le_refl _)
  | mustacheStatement plain opens single invoked =>
    exact laid_around (laid_braces invoked rfl) (by simp) (Input.le_of_eat? opens) invoked.le (le_refl _)
  | comment plain bare opens comment =>
    have order := (Input.le_of_eat? opens).trans (le_of_readComment comment)
    obtain ⟨value, -, rfl⟩ := readComment_eq_ok.mp comment
    exact laid_leaf order rfl
  | element plain bare visible tagged read ih =>
    obtain ⟨opened, opens, named⟩ := Option.bind_eq_some_iff.mp tagged
    obtain ⟨nodes, laid, same⟩ := ih rfl
    exact laid_around laid (by simpa using same.append_right _)
      ((Input.le_of_eat? opens).trans (Input.le_of_tagName? named)) read.le (le_refl _)
  | text plain bare visible untagged => exact laid_leaf (Input.le_takeText _) rfl
  | blockEnd body noElse closes same ih =>
    exact laid_wider (laid_around (ih rfl) (by simp) (le_refl _) body.le (le_refl _))
      (le_refl _) (Input.le_of_closeBlock? closes)
  | blockElse body otherwise last ends otherBody noElse closes same bodyIH otherIH =>
    have gap := (Input.le_of_eatElse? otherwise).trans ((Input.le_skipBlank _).trans
      ((Input.le_skipTilde _).trans (Input.le_of_eat? ends)))
    exact laid_wider (laid_then
      (laid_around (bodyIH rfl) (by simp) (le_refl _) body.le (le_refl _))
      (laid_around (otherIH rfl) (by simp) (le_refl _) otherBody.le (le_refl _))
      body.le gap otherBody.le) (le_refl _) (Input.le_of_closeBlock? closes)
  | blockChain body otherwise chained tag tail bodyIH _ tailIH =>
    have gap := (Input.le_of_eatElse? otherwise).trans (Input.le_skipBlank _)
    have inside := laid_then (laid_braces tag rfl) (tailIH rfl) tag.le (le_refl _) tail.le
    exact laid_cons (laid_around (bodyIH rfl) (by simp) (le_refl _) body.le (le_refl _))
      (Laid.unplaced (laid_around inside (by simp) gap (tag.le.trans tail.le)
        (le_refl _)) (Layer.children_block _ _)) body.le (gap.trans (tag.le.trans tail.le))
  | bareElement startTag bare =>
    obtain ⟨read, laid, same⟩ := laid_startTag startTag rfl
    exact ⟨read, by simpa using laid, same⟩
  | filledElement startTag filled inside closes ends _ insideIH =>
    obtain ⟨read, laid, same⟩ := laid_startTag startTag rfl
    exact ⟨read, laid_wider (laid_then laid (insideIH rfl) startTag.le (le_refl _) inside.le) (le_refl _)
      ((Input.le_of_eat? closes).trans ((Input.le_skipBlank _).trans (Input.le_of_eat? ends))), same⟩
  | _ => cases level

/-- What is read from an input to another stands between their offsets. -/
theorem Reads.laid (reads : Reads depth production input yield closed) :
    yield.Laid input.offset closed.offset := by
  cases level : production.level with
  | invocation => exact laid_invocation reads level
  | braces => exact laid_braces reads level
  | value => exact laid_value reads level
  | startTag => exact laid_startTag reads level
  | content => exact laid_statements reads level

/-- A placed part of what is read was read between the same inputs. -/
theorem Reads.bounds {node part : Node Span} {place : Span}
    (reads : Reads depth production input yield closed) (member : node ∈ yield.nodes)
    (holds : node.Holds part) (placed : part.range = some place) :
    input.offset ≤ place.start ∧ place.stop ≤ closed.offset := by
  have laid := reads.laid
  cases yield with
  | content found =>
    obtain ⟨read, laid, same⟩ := laid
    exact laid.bounds (same.mem_iff.mpr member) holds placed
  | element found children =>
    obtain ⟨read, laid, same⟩ := laid
    exact laid.bounds ((same.append_right _).mem_iff.mpr member) holds placed
  | _ => exact Laid.bounds laid member holds placed

end EmberAssist.Template
