import EmberAssist.Proofs.Template.Simulation

/-! Typing does not change how start tags are read: attributes and their values, comments, modifiers
and block parameters. -/
namespace EmberAssist.Template.Typing.Target

variable {depth : Nat} {yield : Yield}
variable {input opened inner behind next stop closed moved reached : Input} {node : Node Span}
variable {t : Typing} (aim : t.Target)

/-! ## Comments and pieces of text -/

/-- A comment between braces is read again. -/
theorem exists_mustacheComment {isLong : Bool} (opens : input.commentOpen? = some (isLong, opened))
    (comment : readMustacheComment input isLong opened = .ok (node, closed))
    (carried : t.Carried input moved) (clear : t.Clear input closed) : ∃ one reached,
      moved.commentOpen? = some (isLong, one) ∧
      readMustacheComment moved isLong one = .ok (aim.move node, reached) ∧
      t.Carried closed reached := by
  obtain ⟨value, found, rfl⟩ := readMustacheComment_eq_ok.mp comment
  obtain ⟨one, opens', start⟩ := of_rel_told (carried.commentOpen? aim.quiet) opens
  obtain ⟨reached, found, last⟩ := start.upTo_some aim.quiet
    (fun _ _ carried => carried.closesComment aim.quiet) (fun _ _ => le_of_commentCloser)
    found (clear.right (Input.le_of_commentOpen? opens))
  refine ⟨one, reached, opens', readMustacheComment_eq_ok.mpr ⟨value, found, ?_⟩, last⟩
  rw [move, retype_between aim.quiet carried last rfl]
  rfl

theorem not_among_mustacheComment {isLong : Bool}
    (comment : readMustacheComment input isLong opened = .ok (node, closed)) :
    ¬ aim.Among (.node node) := by
  obtain ⟨value, -, rfl⟩ := readMustacheComment_eq_ok.mp comment
  exact aim.not_among_leaf rfl rfl

theorem not_holds_textPiece {chars : List Char} (member : node ∈ textPiece input stop chars) :
    ¬ node.Holds aim.holder := by
  intro holds
  unfold textPiece at member
  split at member
  · cases member
  · obtain rfl := List.mem_singleton.mp member
    exact aim.not_among_leaf rfl rfl (.inr holds)

theorem map_textPiece {chars : List Char} (first : t.Carried input moved)
    (last : t.Carried stop reached) :
    (textPiece input stop chars).map aim.move = textPiece moved reached chars := by
  unfold textPiece
  split
  · rfl
  · rw [List.map_singleton, move, retype_between aim.quiet first last rfl]
    rfl

theorem among_of_mustache {call : Call (Node Span)} {trusting : Bool} {place : Option Span}
    (among : aim.Among (.node (.mk place (.mustache call trusting)))) :
    aim.Among (.mustache call trusting) := by
  rcases aim.below rfl among with invoked | ⟨child, member, holds⟩
  · exact .inl (Option.some.inj invoked)
  · exact .inr ⟨child, by simpa [Node.children, Node.layer] using member, holds⟩

/-! ## Values -/

section Values
variable {quote : Char} {chars : List Char} {call : Call (Node Span)} {trusting : Bool}

private theorem spelling?_quotedValue (pieces : List (Node Span)) :
    spelling? (quotedValue pieces) = none := by
  unfold quotedValue
  split <;> rfl

private theorem invoked?_quotedValue (pieces : List (Node Span)) :
    invoked? (quotedValue pieces) = none := by
  unfold quotedValue
  split <;> rfl

theorem retyped_lastPiece (upTo : input.takeUntil (Input.endsPiece quote) = (chars, stop))
    (more : stop.atEnd = false) (closes : stop.eat? [quote] = some closed) :
    aim.Retyped (depth + 1) (.pieces quote) input (.list (textPiece input stop chars)) closed := by
  intro moved carried met quoted
  have clear := met.resolve_right fun ⟨node, member, holds⟩ =>
    aim.not_holds_textPiece member holds
  obtain ⟨one, upTo', middle⟩ := carried.takeUntil aim.quiet
    (fun _ _ carried => carried.endsPiece aim.quiet quoted) upTo (clear.left (Input.le_of_eat? closes))
  obtain ⟨two, closes, last⟩ :=
    middle.eat?_some aim.quiet closes (clear.right (Input.le_of_takeUntil upTo))
  refine ⟨two, ?_, last⟩
  rw [Yield.map, aim.map_textPiece carried middle]
  exact .lastPiece upTo' (by rw [← middle.atEnd aim.quiet, more]) closes

theorem retyped_pieces {others : List (Node Span)}
    (upTo : input.takeUntil (Input.endsPiece quote) = (chars, stop)) (more : stop.atEnd = false)
    (open_ : stop.eat? [quote] = none)
    (invoked : Reads depth .mustache (stop.skipOptional openBraces) (.mustache call trusting) behind)
    (rest : Reads depth (.pieces quote) behind (.list others) closed)
    (invokedIH : aim.Retyped depth .mustache (stop.skipOptional openBraces) (.mustache call trusting)
      behind)
    (restIH : aim.Retyped depth (.pieces quote) behind (.list others) closed) :
    aim.Retyped (depth + 1) (.pieces quote) input (.list (textPiece input stop chars ++
      .between stop behind (.mustache call trusting) :: others)) closed := by
  intro moved carried met quoted
  obtain ⟨clear, first, -, second, -⟩ := aim.met_parts invoked rest met
    ((Input.le_of_takeUntil upTo).trans (Input.le_skipOptional _ _)) (le_refl _) (le_refl _) (by
      rintro ⟨node, member, holds⟩
      simp only [Yield.nodes, List.mem_append, List.mem_cons] at member
      rcases member with member | rfl | member
      · exact absurd holds (aim.not_holds_textPiece member)
      · exact .inl (aim.among_of_mustache (.inr holds))
      · exact .inr ⟨node, member, holds⟩)
  obtain ⟨one, upTo', start⟩ := carried.takeUntil aim.quiet
    (fun _ _ carried => carried.endsPiece aim.quiet quoted) upTo
    (clear.left (Input.le_skipOptional _ _))
  obtain ⟨two, invoked, middle⟩ :=
    invokedIH (start.skipOptional aim.quiet (by decide)) first trivial
  obtain ⟨three, rest, last⟩ := restIH middle second quoted
  have open' : one.eat? [quote] = none := by
    have same := start.sees_single aim.quiet (agrees_quote quoted)
    rw [Input.sees, open_] at same
    exact Option.isSome_eq_false_iff.mp same.symm |> Option.isNone_iff_eq_none.mp
  refine ⟨three, ?_, last⟩
  rw [Yield.map, List.map_append, List.map_cons, aim.map_textPiece carried start, move,
    retype_between aim.quiet start middle rfl]
  exact .pieces upTo' (by rw [← start.atEnd aim.quiet, more]) open' invoked rest

theorem retyped_mustacheValue (opens : input.eat? openBraces = some opened)
    (invoked : Reads depth .mustache opened (.mustache call trusting) closed)
    (ih : aim.Retyped depth .mustache opened (.mustache call trusting) closed) :
    aim.Retyped depth .value input (.node (.between input closed (.mustache call trusting)))
      closed := by
  intro moved carried met _
  obtain ⟨-, inside, -⟩ := aim.met_part invoked met (Input.le_of_eat? opens) (le_refl _)
    aim.among_of_mustache
  obtain ⟨one, opens, first⟩ := some_of_rel (carried.eat? aim.quiet (by decide)) opens
  obtain ⟨two, invoked, last⟩ := ih first inside trivial
  refine ⟨two, ?_, last⟩
  rw [Yield.map, move, retype_between aim.quiet carried last rfl]
  exact .mustacheValue opens invoked

theorem retyped_quotedValue {pieces : List (Node Span)} (plain : input.eat? openBraces = none)
    (quoted : quoteAhead input = some quote)
    (inside : Reads depth (.pieces quote) (input.skipOptional [quote]) (.list pieces) closed)
    (ih : aim.Retyped depth (.pieces quote) (input.skipOptional [quote]) (.list pieces) closed) :
    aim.Retyped depth .value input (.node (.between input closed (quotedValue pieces))) closed := by
  intro moved carried met _
  obtain ⟨rest, spelled, single⟩ := quoteAhead_eq_some.mp quoted
  obtain ⟨next, ate⟩ : ∃ next, input.eat? [quote] = some next :=
    ⟨⟨input.offset + 1, rest⟩, Input.eat?_eq_some.mpr ⟨spelled, rfl⟩⟩
  have skipped (x y : Input) (read : x.eat? [quote] = some y) : x.skipOptional [quote] = y := by
    rw [Input.skipOptional, read]
    rfl
  obtain ⟨clear, within, -⟩ := aim.met_part inside met (Input.le_skipOptional _ _) (le_refl _) (by
    intro among
    by_cases invoked : pieces.any isMustache
    · have holds := aim.holds_of_among (by exact spelling?_quotedValue pieces) among
      obtain ⟨child, member, holds⟩ := aim.below_of_holds
        (by exact spelling?_quotedValue pieces) (by exact invoked?_quotedValue pieces) holds
      exact ⟨child, by simpa [Template.quotedValue, invoked] using member, holds⟩
    · refine absurd among (aim.not_among_leaf (spelling?_quotedValue pieces) ?_)
      simp only [Node.children_between, Template.quotedValue, invoked]
      rfl)
  rw [skipped input next ate] at clear
  obtain ⟨one, ate', first⟩ := carried.eat?_some aim.quiet ate clear
  rw [skipped input next ate] at ih within
  obtain ⟨two, inside, last⟩ := ih first within single
  refine ⟨two, ?_, last⟩
  rw [Yield.map, move, retype_between aim.quiet carried last (spelling?_quotedValue pieces),
    quotedValue_retype aim.respelled]
  refine .quotedValue (none_of_rel (carried.eat? aim.quiet (by decide)) plain)
    (by rw [← carried.quoteAhead aim.quiet, quoted]) ?_
  rw [skipped moved one ate']
  exact inside

theorem retyped_bareValue (plain : input.eat? openBraces = none) (bare : quoteAhead input = none)
    (taken : input.takeSome? Input.isBareValueChar = some (chars, closed)) :
    aim.Retyped depth .value input (.node (.between input closed (.text (String.ofList chars))))
      closed := by
  intro moved carried met _
  have clear := met.resolve_right (aim.not_among_leaf rfl rfl)
  obtain ⟨one, taken, last⟩ := carried.takeSome?_some aim.quiet agrees_bareValue taken clear
  refine ⟨one, ?_, last⟩
  rw [Yield.map, move, retype_between aim.quiet carried last rfl]
  exact .bareValue (none_of_rel (carried.eat? aim.quiet (by decide)) plain)
    (by rw [← carried.quoteAhead aim.quiet, bare]) taken

end Values

/-! ## Attributes -/

theorem retyped_valueless {name : List Char}
    (named : input.takeSome? Input.isAttributeNameChar = some (name, closed))
    (ends : closed.eat? ['='] = none) :
    aim.Retyped depth .attr input
      (.node (.between input closed (.attr (String.ofList name) (.mk none (.text ""))))) closed := by
  intro moved carried met _
  have clear := met.resolve_right fun among => by
    obtain ⟨child, member, holds⟩ := aim.below_of_holds rfl rfl (aim.holds_of_among rfl among)
    obtain rfl : child = .mk none (.text "") := by simpa using member
    exact aim.not_among_leaf rfl rfl (.inr holds)
  obtain ⟨one, named, last⟩ := carried.takeSome?_some aim.quiet agrees_attributeName named clear
  refine ⟨one, ?_, last⟩
  rw [Yield.map, move, retype_between aim.quiet carried last rfl]
  exact .valueless named (none_of_rel (last.eat? aim.quiet (by decide)) ends)

theorem retyped_attr {name : List Char} {value : Node Span}
    (named : input.takeSome? Input.isAttributeNameChar = some (name, behind))
    (equals : behind.eat? ['='] = some next)
    (assigned : Reads depth .value next (.node value) closed)
    (ih : aim.Retyped depth .value next (.node value) closed) :
    aim.Retyped depth .attr input (.node (.between input closed (.attr (String.ofList name) value)))
      closed := by
  intro moved carried met _
  obtain ⟨clear, inside, -⟩ := aim.met_part assigned met
    ((Input.le_of_takeSome? named).trans (Input.le_of_eat? equals)) (le_refl _) (by
      intro among
      obtain ⟨child, member, holds⟩ := aim.below_of_holds rfl rfl (aim.holds_of_among rfl among)
      have same : child = value := by simpa using member
      exact .inr (same ▸ holds))
  obtain ⟨one, named, start⟩ := carried.takeSome?_some aim.quiet agrees_attributeName named
    (clear.left (Input.le_of_eat? equals))
  obtain ⟨two, equals, middle⟩ := some_of_rel (start.eat? aim.quiet (by decide)) equals
  obtain ⟨three, assigned, last⟩ := ih middle inside trivial
  refine ⟨three, ?_, last⟩
  rw [Yield.map, move, retype_between aim.quiet carried last rfl]
  exact .attr named equals assigned

/-! ## Start tags -/

section Tags
variable {content : TagContent}

theorem retyped_selfClosed (more : input.skipBlank.atEnd = false)
    (closes : input.skipBlank.eat? ['/', '>'] = some closed) :
    aim.Retyped (depth + 1) .tagContent input (.content (.ended true)) closed := by
  intro moved carried _ _
  have spaced := carried.skipBlank aim.quiet
  obtain ⟨one, closes, last⟩ := some_of_rel (spaced.eat? aim.quiet (by decide)) closes
  exact ⟨one, .selfClosed (by rw [← spaced.atEnd aim.quiet, more]) closes, last⟩

theorem retyped_tagEnd (more : input.skipBlank.atEnd = false)
    (open_ : input.skipBlank.eat? ['/', '>'] = none)
    (closes : input.skipBlank.eat? ['>'] = some closed) :
    aim.Retyped (depth + 1) .tagContent input (.content (.ended false)) closed := by
  intro moved carried _ _
  have spaced := carried.skipBlank aim.quiet
  obtain ⟨one, closes, last⟩ := some_of_rel (spaced.eat? aim.quiet (by decide)) closes
  exact ⟨one, .tagEnd (by rw [← spaced.atEnd aim.quiet, more])
    (none_of_rel (spaced.eat? aim.quiet (by decide)) open_) closes, last⟩

/-- The nodes of a start tag with one more node are that node and those of the rest. -/
private theorem among_of_perm {found : TagContent} (same : (node :: content.nodes).Perm found.nodes)
    (among : aim.Among (.content found)) :
    aim.Among (.node node) ∨ aim.Among (.content content) := by
  obtain ⟨other, member, holds⟩ := among
  rcases List.mem_cons.mp (same.mem_iff.mpr member) with rfl | member
  · exact .inl (.inr holds)
  · exact .inr ⟨other, member, holds⟩

theorem retyped_tagComment {isLong : Bool} (stays : input.skipBlank.StaysInTag)
    (opens : input.skipBlank.commentOpen? = some (isLong, opened))
    (comment : readMustacheComment input.skipBlank isLong opened = .ok (node, behind))
    (rest : Reads depth .tagContent behind (.content content) closed)
    (ih : aim.Retyped depth .tagContent behind (.content content) closed) :
    aim.Retyped (depth + 1) .tagContent input (.content (content.withComment node)) closed := by
  intro moved carried met _
  obtain ⟨clear, inside, -⟩ := aim.met_part rest met ((Input.le_skipBlank _).trans
    ((Input.le_of_commentOpen? opens).trans (le_of_readMustacheComment comment))) (le_refl _)
    fun among => (aim.among_of_perm (TagContent.nodes_withComment node content) among).resolve_left
      (aim.not_among_mustacheComment comment)
  have spaced := carried.skipBlank aim.quiet
  obtain ⟨one, two, opens, comment, middle⟩ := aim.exists_mustacheComment opens comment spaced
    (clear.right (Input.le_skipBlank _))
  obtain ⟨three, rest, last⟩ := ih middle inside trivial
  exact ⟨three, .tagComment (spaced.staysInTag aim.quiet stays) opens comment rest, last⟩

theorem retyped_tagModifier {call : Call (Node Span)} (stays : input.skipBlank.StaysInTag)
    (plain : input.skipBlank.commentOpen? = none)
    (opens : input.skipBlank.eat? openBraces = some opened)
    (invoked : Reads depth .modifier opened (.call call) behind)
    (rest : Reads depth .tagContent behind (.content content) closed)
    (invokedIH : aim.Retyped depth .modifier opened (.call call) behind)
    (restIH : aim.Retyped depth .tagContent behind (.content content) closed) :
    aim.Retyped (depth + 1) .tagContent input
      (.content (content.withModifier (.between input.skipBlank behind (.modifier call))))
      closed := by
  intro moved carried met _
  obtain ⟨-, first, -, second, -⟩ := aim.met_parts invoked rest met
    ((Input.le_skipBlank _).trans (Input.le_of_eat? opens)) (le_refl _) (le_refl _) fun among =>
      (aim.among_of_perm (TagContent.nodes_withModifier _ content) among).imp_left fun among => by
        obtain ⟨child, member, holds⟩ := aim.below_of_holds rfl rfl (aim.holds_of_among rfl among)
        exact .inr ⟨child, by simpa using member, holds⟩
  have spaced := carried.skipBlank aim.quiet
  obtain ⟨one, opens, start⟩ := some_of_rel (spaced.eat? aim.quiet (by decide)) opens
  obtain ⟨two, invoked, middle⟩ := invokedIH start first trivial
  obtain ⟨three, rest, last⟩ := restIH middle second trivial
  have again : aim.move (.between input.skipBlank behind (.modifier call)) =
      .between moved.skipBlank two (.modifier (call.map aim.move)) :=
    retype_between aim.quiet spaced middle rfl
  refine ⟨three, ?_, last⟩
  change Reads _ _ _ (.content ((content.map aim.move).withModifier (aim.move _))) _
  rw [again]
  exact .tagModifier (spaced.staysInTag aim.quiet stays)
    (none_of_rel (spaced.commentOpen? aim.quiet) plain) opens invoked rest

theorem retyped_tagParams {names : List String} (stays : input.skipBlank.StaysInTag)
    (plain : input.skipBlank.commentOpen? = none) (bare : input.skipBlank.eat? openBraces = none)
    (declared : input.skipBlank.blockParams? = some (names, behind))
    (rest : Reads depth .tagContent behind (.content content) closed)
    (ih : aim.Retyped depth .tagContent behind (.content content) closed) :
    aim.Retyped (depth + 1) .tagContent input (.content (content.withBlockParams names))
      closed := by
  intro moved carried met _
  obtain ⟨clear, inside, -⟩ := aim.met_part rest met
    ((Input.le_skipBlank _).trans (Input.le_of_blockParams? declared)) (le_refl _) id
  have spaced := carried.skipBlank aim.quiet
  obtain ⟨one, declared, middle⟩ :=
    spaced.blockParams?_some aim.quiet declared (clear.right (Input.le_skipBlank _))
  obtain ⟨two, rest, last⟩ := ih middle inside trivial
  exact ⟨two, .tagParams (spaced.staysInTag aim.quiet stays)
    (none_of_rel (spaced.commentOpen? aim.quiet) plain)
    (none_of_rel (spaced.eat? aim.quiet (by decide)) bare) declared rest, last⟩

theorem retyped_tagAttribute (stays : input.skipBlank.StaysInTag)
    (plain : input.skipBlank.commentOpen? = none) (bare : input.skipBlank.eat? openBraces = none)
    (undeclared : input.skipBlank.blockParams? = none)
    (taken : Reads depth .attr input.skipBlank (.node node) behind)
    (rest : Reads depth .tagContent behind (.content content) closed)
    (takenIH : aim.Retyped depth .attr input.skipBlank (.node node) behind)
    (restIH : aim.Retyped depth .tagContent behind (.content content) closed) :
    aim.Retyped (depth + 1) .tagContent input (.content (content.withAttribute node)) closed := by
  intro moved carried met _
  obtain ⟨-, first, -, second, -⟩ := aim.met_parts taken rest met (Input.le_skipBlank _)
    (le_refl _) (le_refl _) (aim.among_of_perm (.refl _))
  have spaced := carried.skipBlank aim.quiet
  obtain ⟨one, taken, middle⟩ := takenIH spaced first trivial
  obtain ⟨two, rest, last⟩ := restIH middle second trivial
  exact ⟨two, .tagAttribute (spaced.staysInTag aim.quiet stays)
    (none_of_rel (spaced.commentOpen? aim.quiet) plain)
    (none_of_rel (spaced.eat? aim.quiet (by decide)) bare)
    (spaced.blockParams?_none aim.quiet undeclared) taken rest, last⟩

end Tags

end EmberAssist.Template.Typing.Target
