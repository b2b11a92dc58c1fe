import EmberAssist.Proofs.Template.Ranges

/-! How the parts of a template were read. Every node of a tree, however deep, was made by one of the
rules of the grammar from a place that the text reaches, so what holds of the rules holds of all
nodes. -/
namespace EmberAssist.Template

/-- A call in an else tag, which goes on with the block before it. -/
inductive Link (root : Input) : Node Span → Prop where
  | mk {name : Option String} {params : List String} {call : Call (Node Span)}
      {program : Node Span} {inverse : Option (Node Span)} (reach : root ≤ input)
      (otherwise : input.eatElse? = some opened) (chained : opened.skipBlank.eatClose?.isSome = false)
      (tag : Reads depth .blockTag opened.skipBlank (.blockTag call params) behind)
      (tail : Reads depth (.blockTail name params) behind (.blockTail program inverse) closed) :
      Link root (.between input closed (.blockCall call program inverse))

/-- What a node of a template was made from, in a text that begins at `root`. -/
inductive Origin (root : Input) : Node Span → Prop where
  | whole {statements : List (Node Span)} (body : Reads depth .body root (.list statements) stop) :
      Origin root (.between root stop (.template statements []))
  | single {node : Node Span} (reach : root ≤ input)
      (reads : Reads depth production input (.node node) closed) : Origin root node
  | pair {name : List Char} {value : Node Span} (reach : root ≤ input)
      (named : input.argumentName? = some (name, behind))
      (assigned : Reads depth .expression behind (.node value) closed) :
      Origin root (.between input closed (.hashPair (String.ofList name) value))
  | hash {afterNamed : Bool} {params pairs : List (Node Span)} (reach : root ≤ input)
      (given : Reads depth (.arguments afterNamed) input (.arguments params pairs) closed) :
      Origin root (hashOf pairs)
  | mustache {call : Call (Node Span)} {trusting : Bool} (reach : root ≤ input)
      (opens : input.eat? openBraces = some opened)
      (invoked : Reads depth .mustache opened (.mustache call trusting) closed) :
      Origin root (.between input closed (.mustache call trusting))
  | modifier {call : Call (Node Span)} (reach : root ≤ input)
      (opens : input.eat? openBraces = some opened)
      (invoked : Reads depth .modifier opened (.call call) closed) :
      Origin root (.between input closed (.modifier call))
  | comment {isLong : Bool} {node : Node Span} (reach : root ≤ input)
      (opens : input.commentOpen? = some (isLong, opened))
      (comment : readMustacheComment input isLong opened = .ok (node, closed)) : Origin root node
  | piece {quote : Char} {chars : List Char} (reach : root ≤ input)
      (upTo : input.takeUntil (Input.endsPiece quote) = (chars, stop)) :
      Origin root (.between input stop (.text (String.ofList chars)))
  | unvalued : Origin root (.mk none (.text ""))
  | block {statements : List (Node Span)} {params : List String} (reach : root ≤ input)
      (body : Reads depth .body input (.list statements) stop) :
      Origin root (.between input stop (.block statements params))
  | link {node : Node Span} (link : Link root node) : Origin root node
  | chain {next : Node Span} (link : Link root next) : Origin root (.mk none (.block [next] []))

variable {depth : Nat} {production : Production} {yield : Yield}
variable {root input opened inner behind next stop closed : Input}

/-! ## All parts of some nodes -/

/-- Something holds of all parts of some nodes. -/
def Everywhere (P : Node Span → Prop) (nodes : List (Node Span)) : Prop :=
  ∀ node ∈ nodes, ∀ part, node.Holds part → P part

namespace Everywhere
variable {P : Node Span → Prop} {left right nodes : List (Node Span)}

theorem nil : Everywhere P [] := by
  intro node member
  cases member

theorem append (first : Everywhere P left) (second : Everywhere P right) :
    Everywhere P (left ++ right) := by
  intro node member
  exact (List.mem_append.mp member).elim (first node) (second node)

theorem cons {node : Node Span} (first : Everywhere P [node]) (rest : Everywhere P nodes) :
    Everywhere P (node :: nodes) := first.append rest

theorem of_append (all : Everywhere P (left ++ right)) :
    Everywhere P left ∧ Everywhere P right :=
  ⟨fun node member => all node (List.mem_append_left _ member),
    fun node member => all node (List.mem_append_right _ member)⟩

/-- A node around parts of which something holds. -/
theorem around {range : Option Span} {layer : Layer (Node Span)} (here : P (.mk range layer))
    (below : Everywhere P layer.children) : Everywhere P [.mk range layer] := by
  intro node member part held
  rw [List.mem_singleton.mp member] at held
  rcases Node.holds_iff.mp held with rfl | ⟨child, member, held⟩
  · exact here
  · exact below child member part held

theorem perm (all : Everywhere P left) (same : left.Perm right) : Everywhere P right :=
  fun node member => all node (same.mem_iff.mpr member)

end Everywhere

/-! ## What is read -/

private theorem origin_textPiece {quote : Char} {chars : List Char} (reach : root ≤ input)
    (upTo : input.takeUntil (Input.endsPiece quote) = (chars, stop)) :
    Everywhere (Origin root) (textPiece input stop chars) := by
  unfold textPiece
  split
  · exact .nil
  · exact .around (.piece reach upTo) .nil

/-- A piece of a quoted value that does not end at the quote ends at braces. -/
theorem eat?_openBraces_of_piece {quote : Char} {chars : List Char}
    (upTo : input.takeUntil (Input.endsPiece quote) = (chars, stop)) (more : stop.atEnd = false)
    (open_ : stop.eat? [quote] = none) : ∃ opened, stop.eat? openBraces = some opened := by
  have stops := Input.stops_of_takeUntil upTo more
  obtain ⟨offset, rest⟩ := stop
  simp only at stops
  unfold Input.endsPiece at stops
  split at stops
  · rename_i rest
    exact ⟨⟨offset + 2, rest⟩, by simp [Input.eat?, openBraces]⟩
  · rename_i c rest _
    obtain rfl : c = quote := by simpa using stops
    simp [Input.eat?] at open_
  · cases stops

private theorem origin_comment {isLong : Bool} {node : Node Span} (reach : root ≤ input)
    (opens : input.commentOpen? = some (isLong, opened))
    (comment : readMustacheComment input isLong opened = .ok (node, closed)) :
    Everywhere (Origin root) [node] := by
  have here := Origin.comment reach opens comment
  obtain ⟨value, -, rfl⟩ := readMustacheComment_eq_ok.mp comment
  exact .around here .nil

private theorem origin_invocation (reads : Reads depth production input yield closed)
    (level : production.level = .invocation) (reach : root ≤ input) :
    Everywhere (Origin root) yield.nodes := by
  induction reads with
  | subExpression opens invoked closes ih =>
    have later := (reach.trans (Input.le_skipBlank _)).trans (Input.le_of_eat? opens)
    exact .around (.single reach (.subExpression opens invoked closes)) (by simpa using ih rfl later)
  | string plain quoted read =>
    have here : Origin root _ :=
      .single reach (show Reads 1 .expression _ _ _ from .string plain quoted read)
    obtain ⟨value, -, rfl⟩ := readString_eq_ok.mp read
    exact .around here .nil
  | word plain bare read =>
    have here : Origin root _ :=
      .single reach (show Reads 1 .expression _ _ _ from .word plain bare read)
    rcases readWord_eq_ok.mp read with ⟨number, -, rfl⟩ | ⟨-, word, -, rfl⟩
    · exact .around here .nil
    · exact .around here (by rw [Layer.children_wordLayer]; exact .nil)
  | call called given calledIH givenIH =>
    have later := reach.trans called.le
    obtain ⟨params, pairs⟩ := (givenIH rfl later).of_append
    have hash := Origin.hash later given
    exact .cons (calledIH rfl reach) (params.append (.around hash (by simpa using pairs)))
  | noArguments => exact .nil
  | named goesOn named assigned rest assignedIH restIH =>
    have start := reach.trans (Input.le_skipBlank _)
    have value := start.trans (Input.le_of_argumentName? named)
    obtain ⟨params, pairs⟩ := (restIH rfl (value.trans assigned.le)).of_append
    exact params.append (.cons (.around (.pair start named assigned) (assignedIH rfl value)) pairs)
  | positional goesOn unnamed given rest givenIH restIH =>
    have start := reach.trans (Input.le_skipBlank _)
    exact .cons (givenIH rfl start) (restIH rfl (start.trans given.le))
  | _ => cases level

private theorem origin_braces (reads : Reads depth production input yield closed)
    (level : production.level = .braces) (reach : root ≤ input) :
    Everywhere (Origin root) yield.nodes := by
  cases reads with
  | trusting third invoked closes =>
    have inner := reach.trans ((Input.le_of_eat? third).trans (Input.le_skipTilde _))
    have called := origin_invocation invoked rfl inner
    exact called
  | mustache plain invoked closes | modifier invoked closes =>
    have called := origin_invocation invoked rfl (reach.trans (Input.le_skipTilde _))
    exact called
  | blockTag invoked declared closes =>
    have called := origin_invocation invoked rfl reach
    exact called
  | _ => cases level

private theorem origin_value (reads : Reads depth production input yield closed)
    (level : production.level = .value) (reach : root ≤ input) :
    Everywhere (Origin root) yield.nodes := by
  induction reads with
  | lastPiece upTo more closes => exact origin_textPiece reach upTo
  | pieces upTo more open_ invoked rest _ restIH =>
    have text := reach.trans (Input.le_of_takeUntil upTo)
    have braces := text.trans (Input.le_skipOptional openBraces _)
    obtain ⟨opened, opens⟩ := eat?_openBraces_of_piece upTo more open_
    rw [Input.skipOptional, opens, Option.getD_some] at invoked braces
    have inside := origin_braces invoked rfl braces
    exact (origin_textPiece reach upTo).append (.cons (.around (.mustache text opens invoked)
      (by simpa using inside)) (restIH rfl (braces.trans invoked.le)))
  | mustacheValue opens invoked =>
    have inside := origin_braces invoked rfl (reach.trans (Input.le_of_eat? opens))
    exact .around (.single reach (.mustacheValue opens invoked)) (by simpa using inside)
  | @quotedValue _ _ _ _ pieces plain quoted inside ih =>
    refine .around (.single reach (.quotedValue plain quoted inside)) ?_
    have parts := ih rfl (reach.trans (Input.le_skipOptional _ _))
    by_cases invoked : pieces.any isMustache
    · simpa [Template.quotedValue, invoked] using parts
    · simp only [Template.quotedValue, invoked]
      exact .nil
  | bareValue plain bare taken =>
    exact .around (.single reach (show Reads 1 .value _ _ _ from .bareValue plain bare taken)) .nil
  | valueless named ends =>
    exact .around (.single reach (show Reads 1 .attr _ _ _ from .valueless named ends))
      (.around .unvalued .nil)
  | attr named equals assigned ih =>
    have value := (Input.le_of_takeSome? named).trans (Input.le_of_eat? equals)
    exact .around (.single reach (.attr named equals assigned)) (ih rfl (reach.trans value))
  | _ => cases level

private theorem origin_startTag (reads : Reads depth production input yield closed)
    (level : production.level = .startTag) (reach : root ≤ input) :
    Everywhere (Origin root) yield.nodes := by
  induction reads with
  | selfClosed more closes => exact .nil
  | tagEnd more open_ closes => exact .nil
  | tagComment stays opens comment rest ih =>
    have start := reach.trans (Input.le_skipBlank _)
    have behind := (Input.le_of_commentOpen? opens).trans (le_of_readMustacheComment comment)
    exact .perm (.cons (origin_comment start opens comment) (ih rfl (start.trans behind)))
      (TagContent.nodes_withComment _ _)
  | tagModifier stays plain opens invoked rest _ restIH =>
    have start := reach.trans (Input.le_skipBlank _)
    have tag := start.trans (Input.le_of_eat? opens)
    have inside := origin_braces invoked rfl tag
    exact .perm (.cons (.around (.modifier start opens invoked) (by simpa using inside))
      (restIH rfl (tag.trans invoked.le))) (TagContent.nodes_withModifier _ _)
  | tagParams stays plain bare declared rest ih =>
    exact ih rfl ((reach.trans (Input.le_skipBlank _)).trans (Input.le_of_blockParams? declared))
  | tagAttribute stays plain bare undeclared taken rest _ restIH =>
    have start := reach.trans (Input.le_skipBlank _)
    exact .cons (origin_value taken rfl start) (restIH rfl (start.trans taken.le))
  | _ => cases level

private theorem origin_content (reads : Reads depth production input yield closed)
    (level : production.level = .content) (reach : root ≤ input) :
    Everywhere (Origin root) yield.nodes := by
  induction reads with
  | noStatements ends => exact .nil
  | statements goesOn head rest headIH restIH =>
    exact .cons (headIH rfl reach) (restIH rfl (reach.trans head.le))
  | mustacheComment opens comment => exact origin_comment reach opens comment
  | block plain opens block hash tag tail _ tailIH =>
    have inner := reach.trans ((Input.le_of_eat? opens).trans
      ((Input.le_skipTilde _).trans (Input.le_of_eat? hash)))
    have below := (origin_braces tag rfl inner).append (tailIH rfl (inner.trans tag.le))
    exact .around (.single reach (.block plain opens block hash tag tail)) (by simpa using below)
  | mustacheStatement plain opens single invoked =>
    have inside := origin_braces invoked rfl (reach.trans (Input.le_of_eat? opens))
    exact .around (.single reach (.mustacheStatement plain opens single invoked))
      (by simpa using inside)
  | comment plain bare opens comment =>
    have here : Origin root _ :=
      .single reach (show Reads 1 .statement _ _ _ from .comment plain bare opens comment)
    obtain ⟨value, -, rfl⟩ := readComment_eq_ok.mp comment
    exact .around here .nil
  | element plain bare visible tagged read ih =>
    obtain ⟨opened, opens, named⟩ := Option.bind_eq_some_iff.mp tagged
    have content := reach.trans ((Input.le_of_eat? opens).trans (Input.le_of_tagName? named))
    exact .around (.single reach (.element plain bare visible tagged read))
      (by simpa using ih rfl content)
  | text plain bare visible untagged =>
    exact .around (.single reach (show Reads 1 .statement _ _ _ from
      .text plain bare visible untagged)) .nil
  | blockEnd body noElse closes same ih =>
    exact .around (.block reach body) (by simpa using ih rfl reach)
  | blockElse body otherwise last ends otherBody noElse closes same bodyIH otherIH =>
    have inner := reach.trans (body.le.trans ((Input.le_of_eatElse? otherwise).trans
      ((Input.le_skipBlank _).trans ((Input.le_skipTilde _).trans (Input.le_of_eat? ends)))))
    exact .cons (.around (.block reach body) (by simpa using bodyIH rfl reach))
      (.around (.block inner otherBody) (by simpa using otherIH rfl inner))
  | blockChain body otherwise chained tag tail bodyIH _ tailIH =>
    have stop := reach.trans body.le
    have inner := stop.trans ((Input.le_of_eatElse? otherwise).trans (Input.le_skipBlank _))
    have below := (origin_braces tag rfl inner).append (tailIH rfl (inner.trans tag.le))
    have link := Link.mk stop otherwise chained tag tail
    have next : Everywhere (Origin root) [_] := .around (.link link) (by simpa using below)
    exact .cons (.around (.block reach body) (by simpa using bodyIH rfl reach))
      (.around (.chain link) (by rw [Layer.children_block]; exact next))
  | bareElement startTag bare => simpa using origin_startTag startTag rfl reach
  | filledElement startTag filled inside closes ends _ insideIH =>
    exact (origin_startTag startTag rfl reach).append (insideIH rfl (reach.trans startTag.le))
  | _ => cases level

/-- Every part of what is read was read by one of the rules. -/
theorem Reads.origin (reads : Reads depth production input yield closed) (reach : root ≤ input) :
    Everywhere (Origin root) yield.nodes := by
  cases level : production.level with
  | invocation => exact origin_invocation reads level reach
  | braces => exact origin_braces reads level reach
  | value => exact origin_value reads level reach
  | startTag => exact origin_startTag reads level reach
  | content => exact origin_content reads level reach

end EmberAssist.Template
