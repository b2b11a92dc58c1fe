import EmberAssist.Proofs.Template.SimulationTags

/-! Typing does not change how statements are read: comments, invocations, blocks, elements and running
text. A block keeps its name, so that its closing tag still fits. -/
namespace EmberAssist.Template.Typing.Target

variable {depth : Nat} {yield : Yield}
variable {input opened inner behind next stop closed moved reached : Input} {node : Node Span}
variable {t : Typing} (aim : t.Target)

/-! ## Bodies -/

section Bodies

theorem retyped_noStatements :
    aim.Retyped (depth + 1) .body input (.list []) input := by
  intro moved carried _ ends
  exact ⟨moved, .noStatements (ends moved carried), carried⟩

theorem retyped_statements {first : Node Span} {others : List (Node Span)}
    (goesOn : input.endsBody = false)
    (head : Reads depth .statement input (.node first) behind)
    (rest : Reads depth .body behind (.list others) closed)
    (headIH : aim.Retyped depth .statement input (.node first) behind)
    (restIH : aim.Retyped depth .body behind (.list others) closed) :
    aim.Retyped (depth + 1) .body input (.list (first :: others)) closed := by
  intro moved carried met ends
  obtain ⟨-, inFirst, -, inRest, -⟩ := aim.met_parts head rest met (le_refl _) (le_refl _)
    (le_refl _) (by
      rintro ⟨node, member, holds⟩
      rcases List.mem_cons.mp member with rfl | member
      · exact .inl (.inr holds)
      · exact .inr ⟨node, member, holds⟩)
  obtain ⟨one, head, middle⟩ := headIH carried inFirst trivial
  obtain ⟨two, rest, last⟩ := restIH middle inRest ends
  exact ⟨two, .statements (carried.endsBody_false aim.quiet goesOn) head rest, last⟩

theorem retyped_mustacheComment {isLong : Bool}
    (opens : input.commentOpen? = some (isLong, opened))
    (comment : readMustacheComment input isLong opened = .ok (node, closed)) :
    aim.Retyped (depth + 1) .statement input (.node node) closed := by
  intro moved carried met _
  have clear := met.resolve_right (aim.not_among_mustacheComment comment)
  obtain ⟨one, two, opens, comment, last⟩ := aim.exists_mustacheComment opens comment carried clear
  exact ⟨two, .mustacheComment opens comment, last⟩

theorem retyped_mustacheStatement {call : Call (Node Span)} {trusting : Bool}
    (plain : input.commentOpen? = none) (opens : input.eat? openBraces = some opened)
    (single : input.seesBlockOpen = false)
    (invoked : Reads depth .mustache opened (.mustache call trusting) closed)
    (ih : aim.Retyped depth .mustache opened (.mustache call trusting) closed) :
    aim.Retyped (depth + 1) .statement input
      (.node (.between input closed (.mustache call trusting))) closed := by
  intro moved carried met _
  obtain ⟨-, inside, -⟩ := aim.met_part invoked met (Input.le_of_eat? opens) (le_refl _)
    aim.among_of_mustache
  obtain ⟨one, opens, first⟩ := some_of_rel (carried.eat? aim.quiet (by decide)) opens
  obtain ⟨two, invoked, last⟩ := ih first inside trivial
  refine ⟨two, ?_, last⟩
  rw [Yield.map, move, retype_between aim.quiet carried last rfl]
  exact .mustacheStatement (none_of_rel (carried.commentOpen? aim.quiet) plain) opens
    (by rw [← carried.seesBlockOpen aim.quiet, single]) invoked

theorem retyped_comment (plain : input.commentOpen? = none) (bare : input.eat? openBraces = none)
    (opens : input.eat? ['<', '!', '-', '-'] = some opened)
    (comment : readComment input opened = .ok (node, closed)) :
    aim.Retyped (depth + 1) .statement input (.node node) closed := by
  intro moved carried met _
  obtain ⟨value, found, rfl⟩ := readComment_eq_ok.mp comment
  have clear := met.resolve_right (aim.not_among_leaf rfl rfl)
  obtain ⟨one, opens', start⟩ := some_of_rel (carried.eat? aim.quiet (by decide)) opens
  obtain ⟨two, found, last⟩ := start.upTo_some aim.quiet
    (fun _ _ carried => carried.eat? aim.quiet (by decide)) (fun _ _ => Input.le_of_eat?) found
    (clear.right (Input.le_of_eat? opens))
  refine ⟨two, ?_, last⟩
  rw [Yield.map, move, retype_between aim.quiet carried last rfl]
  exact .comment (none_of_rel (carried.commentOpen? aim.quiet) plain)
    (none_of_rel (carried.eat? aim.quiet (by decide)) bare) opens'
    (readComment_eq_ok.mpr ⟨value, found, rfl⟩)

theorem retyped_element {tag : List Char} {content : TagContent} {children : List (Node Span)}
    (plain : input.commentOpen? = none) (bare : input.eat? openBraces = none)
    (visible : input.eat? ['<', '!', '-', '-'] = none)
    (tagged : (input.eat? ['<']).bind Input.tagName? = some (tag, behind))
    (read : Reads depth (.element tag) behind (.element content children) closed)
    (ih : aim.Retyped depth (.element tag) behind (.element content children) closed) :
    aim.Retyped (depth + 1) .statement input
      (.node (.between input closed (elementLayer tag content children))) closed := by
  intro moved carried met _
  obtain ⟨opened, opens, named⟩ := Option.bind_eq_some_iff.mp tagged
  obtain ⟨clear, inside, -⟩ := aim.met_part read met
    ((Input.le_of_eat? opens).trans (Input.le_of_tagName? named)) (le_refl _) (by
      intro among
      obtain ⟨child, member, holds⟩ := aim.below_of_holds rfl rfl (aim.holds_of_among rfl among)
      exact ⟨child, by simpa using member, holds⟩)
  obtain ⟨one, opens', start⟩ := some_of_rel (carried.eat? aim.quiet (by decide)) opens
  obtain ⟨two, named, middle⟩ :=
    start.tagName?_some aim.quiet named (clear.right (Input.le_of_eat? opens))
  obtain ⟨three, read, last⟩ := ih middle inside trivial
  refine ⟨three, ?_, last⟩
  rw [Yield.map, move, retype_between aim.quiet carried last rfl]
  exact .element (none_of_rel (carried.commentOpen? aim.quiet) plain)
    (none_of_rel (carried.eat? aim.quiet (by decide)) bare)
    (none_of_rel (carried.eat? aim.quiet (by decide)) visible)
    (by rw [opens', Option.bind_some, named]) read

theorem retyped_text (plain : input.commentOpen? = none) (bare : input.eat? openBraces = none)
    (visible : input.eat? ['<', '!', '-', '-'] = none)
    (untagged : (input.eat? ['<']).bind Input.tagName? = none) :
    aim.Retyped (depth + 1) .statement input (.node (readText input).1) (readText input).2 := by
  intro moved carried met _
  have clear := met.resolve_right (aim.not_among_leaf rfl rfl)
  have told := carried.takeText_some aim.quiet clear
  have untagged : (moved.eat? ['<']).bind Input.tagName? = none := by
    have opens := carried.eat? aim.quiet (show Marked ['<'] by decide)
    generalize input.eat? ['<'] = one at opens untagged
    generalize moved.eat? ['<'] = other at opens ⊢
    cases opens with
    | none => rfl
    | some further => exact further.tagName?_none aim.quiet untagged
  refine ⟨(readText moved).2, ?_, told.2⟩
  have same : aim.move (readText input).1 = (readText moved).1 := by
    simp only [readText, told.1]
    exact retype_between aim.quiet carried told.2 rfl
  rw [Yield.map, same]
  exact .text (none_of_rel (carried.commentOpen? aim.quiet) plain)
    (none_of_rel (carried.eat? aim.quiet (by decide)) bare)
    (none_of_rel (carried.eat? aim.quiet (by decide)) visible) untagged

end Bodies

/-! ## Elements -/

section Elements
variable {tag : List Char} {content : TagContent} {children : List (Node Span)}

theorem retyped_bareElement (startTag : Reads depth .tagContent input (.content content) closed)
    (bare : isBare tag content = true)
    (ih : aim.Retyped depth .tagContent input (.content content) closed) :
    aim.Retyped (depth + 1) (.element tag) input (.element content []) closed := by
  intro moved carried met _
  obtain ⟨-, inside, -⟩ := aim.met_part startTag met (le_refl _) (le_refl _) (by
    rintro ⟨node, member, holds⟩
    exact ⟨node, by simpa using member, holds⟩)
  obtain ⟨one, startTag, last⟩ := ih carried inside trivial
  exact ⟨one, .bareElement startTag bare, last⟩

theorem retyped_filledElement (startTag : Reads depth .tagContent input (.content content) opened)
    (filled : isBare tag content = false) (inside : Reads depth .body opened (.list children) stop)
    (closes : stop.eat? ('<' :: '/' :: tag) = some behind)
    (ends : behind.skipBlank.eat? ['>'] = some closed)
    (startIH : aim.Retyped depth .tagContent input (.content content) opened)
    (insideIH : aim.Retyped depth .body opened (.list children) stop) :
    aim.Retyped (depth + 1) (.element tag) input (.element content children) closed := by
  intro moved carried met _
  have order := (Input.le_skipBlank behind).trans (Input.le_of_eat? ends)
  obtain ⟨-, first, -, second, clear⟩ := aim.met_parts startTag inside met (le_refl _) (le_refl _)
    ((Input.le_of_eat? closes).trans order) (by
      rintro ⟨node, member, holds⟩
      rcases List.mem_append.mp member with member | member
      · exact .inl ⟨node, member, holds⟩
      · exact .inr ⟨node, member, holds⟩)
  have again (reached : Input) (carried : t.Carried stop reached) :=
    carried.eat?_some aim.quiet closes (clear.left order)
  obtain ⟨one, startTag, start⟩ := startIH carried first trivial
  obtain ⟨two, inside, middle⟩ := insideIH start second fun reached carried => by
    obtain ⟨three, closes, -⟩ := again reached carried
    exact Input.endsBody_of_closing closes
  obtain ⟨three, closes, further⟩ := again two middle
  obtain ⟨four, ends, last⟩ :=
    some_of_rel ((further.skipBlank aim.quiet).eat? aim.quiet (by decide)) ends
  exact ⟨four, .filledElement startTag filled inside closes ends, last⟩

end Elements

/-! ## Blocks -/

section Blocks
variable {call : Call (Node Span)} {names nextNames : List String} {program : Node Span}
variable {inverse : Option (Node Span)} {name : Option String} {closing : List Char}
variable {statements others : List (Node Span)}

/-- What stands behind the callee of an invocation does not give a token where the callee is. -/
private theorem not_holds_behind (tag : Reads depth .blockTag input (.blockTag call names) behind)
    (here : call.callee.range = some t.span) (member : node ∈ call.params ++ [call.hash]) :
    ¬ node.Holds aim.holder := by
  intro holds
  have nonempty := aim.quiet.start_lt_stop
  have laid : Laid input.offset behind.offset call.nodes := tag.laid
  obtain ⟨address, found⟩ := Node.Holds.trans holds aim.holds_token
  obtain ⟨outer, front, inside⟩ := (laid.laminar node (List.mem_cons_of_mem _ member)).inside_front
    found aim.placed
  have ordered := laid.ordered
  rw [Call.nodes, List.flatMap_cons, Node.front_of_range here, List.singleton_append,
    List.pairwise_cons] at ordered
  have behind := ordered.1 outer (List.mem_flatMap.mpr ⟨node, member, front⟩)
  have order : t.stop ≤ t.start := behind.trans inside.1
  omega

/-- What is invoked and holds the token is no path, neither before nor after typing. -/
private theorem pathSpelling?_of_holder {callee : Node Span} (holds : callee.Holds aim.holder) :
    pathSpelling? (t.retype aim.fresh callee).layer = pathSpelling? callee.layer := by
  cases spelled : spelling? callee.layer with
  | none => rw [layer_retype spelled, pathSpelling?_map]
  | some spelling =>
    have leaf : callee.layer.children = [] := children_of_spelling? (by rw [spelled]; rfl)
    have single : invoked? callee.layer = none := by
      cases layer : callee.layer <;> first | rfl | (rw [layer] at spelled; cases spelled)
    have same := aim.eq_token_of_leaf leaf single (.inr holds)
    rcases aim.held with invoked | ⟨-, plain, respelled⟩
    · rcases Node.holds_iff.mp holds with held | ⟨child, member, -⟩
      · rw [held, single] at invoked
        cases invoked
      · rw [show callee.children = [] from leaf] at member
        cases member
    · obtain ⟨place, layer⟩ := callee
      rw [← same] at plain
      rw [plain, retype_mk]
      simp only [Node.layer, respell]
      split
      · exact respelled
      · rw [pathSpelling?_map]
        exact plain

/-- A block tag keeps its name: the token is not what it invokes. -/
theorem calleeName_move (tag : Reads depth .blockTag input (.blockTag call names) behind)
    (met : aim.Met input (.blockTag call names) behind) :
    calleeName (aim.move call.callee) = calleeName call.callee := by
  rw [calleeName_eq, calleeName_eq, move]
  by_cases here : call.callee.range = some t.span
  · have nonempty := aim.quiet.start_lt_stop
    have given : call.callee ∈ (Yield.blockTag call names).nodes := by simp [Call.nodes]
    have bounds := tag.bounds given (.self _) here
    simp only [span] at bounds
    rcases met with clear | ⟨node, member, holds⟩
    · unfold Clear at clear
      omega
    · rcases List.mem_cons.mp member with rfl | member
      · exact aim.pathSpelling?_of_holder holds
      · exact absurd holds (aim.not_holds_behind tag here member)
  · rw [layer_retype_of_ne here, pathSpelling?_map]

theorem retyped_block (plain : input.commentOpen? = none) (opens : input.eat? openBraces = some opened)
    (block : input.seesBlockOpen = true) (hash : opened.skipTilde.eat? ['#'] = some inner)
    (tag : Reads depth .blockTag inner (.blockTag call names) behind)
    (tail : Reads depth (.blockTail (calleeName call.callee) names) behind
      (.blockTail program inverse) closed)
    (tagIH : aim.Retyped depth .blockTag inner (.blockTag call names) behind)
    (tailIH : aim.Retyped depth (.blockTail (calleeName call.callee) names) behind
      (.blockTail program inverse) closed) :
    aim.Retyped (depth + 1) .statement input
      (.node (.between input closed (.blockCall call program inverse))) closed := by
  intro moved carried met _
  have start := (Input.le_of_eat? opens).trans (Input.le_skipTilde opened)
  obtain ⟨clear, first, -, second, -⟩ := aim.met_parts tag tail met
    (start.trans (Input.le_of_eat? hash)) (le_refl _) (le_refl _) (by
      intro among
      obtain ⟨child, member, holds⟩ := aim.below_of_holds rfl rfl (aim.holds_of_among rfl among)
      simp only [Node.children_between, Layer.children_blockCall, List.mem_append] at member
      rcases member with member | member
      · exact .inl ⟨child, member, holds⟩
      · exact .inr ⟨child, member, holds⟩)
  have kept := aim.calleeName_move tag first
  obtain ⟨one, opens, begun⟩ := some_of_rel (carried.eat? aim.quiet (by decide)) opens
  obtain ⟨two, hash, inside⟩ :=
    (begun.skipTilde aim.quiet).eat?_some aim.quiet hash (clear.right start)
  obtain ⟨three, tag, middle⟩ := tagIH inside first trivial
  obtain ⟨four, tail, last⟩ := tailIH middle second trivial
  refine ⟨four, ?_, last⟩
  rw [← kept] at tail
  rw [Yield.map, move, retype_between aim.quiet carried last rfl]
  exact .block (none_of_rel (carried.commentOpen? aim.quiet) plain) opens
    (by rw [← carried.seesBlockOpen aim.quiet, block]) hash tag tail

/-- The content of a block is made of its statements. -/
private theorem among_list_of_block {place : Option Span}
    (holds : Node.Holds (.mk place (.block statements names)) aim.holder) :
    aim.Among (.list statements) := by
  obtain ⟨child, member, holds⟩ := aim.below_of_holds rfl rfl holds
  exact ⟨child, by simpa [Node.children, Node.layer] using member, holds⟩

theorem retyped_blockEnd (body : Reads depth .body input (.list statements) stop)
    (noElse : stop.eatElse? = none) (closes : stop.closeBlock? = some (closing, closed))
    (same : name = some (String.ofList closing))
    (ih : aim.Retyped depth .body input (.list statements) stop) :
    aim.Retyped (depth + 1) (.blockTail name names) input
      (.blockTail (.between input stop (.block statements names)) none) closed := by
  intro moved carried met _
  obtain ⟨-, inside, clear⟩ := aim.met_part body met (le_refl _) (Input.le_of_closeBlock? closes) (by
    rintro ⟨node, member, holds⟩
    obtain rfl := List.mem_singleton.mp member
    exact aim.among_list_of_block holds)
  have again (reached : Input) (carried : t.Carried stop reached) :=
    carried.closeBlock?_some aim.quiet closes clear
  obtain ⟨one, body, middle⟩ := ih carried inside fun reached carried => by
    obtain ⟨two, closes, -⟩ := again reached carried
    exact Input.endsBody_of_closeBlock? closes
  obtain ⟨two, closes, last⟩ := again one middle
  refine ⟨two, ?_, last⟩
  rw [Yield.map, move, retype_between aim.quiet carried middle rfl]
  exact .blockEnd body (middle.eatElse?_none aim.quiet noElse) closes same

theorem retyped_blockElse (body : Reads depth .body input (.list statements) stop)
    (otherwise : stop.eatElse? = some opened) (last : opened.skipBlank.eatClose?.isSome = true)
    (ends : opened.skipBlank.skipTilde.eat? closeBraces = some inner)
    (otherBody : Reads depth .body inner (.list others) behind)
    (noElse : behind.eatElse? = none) (closes : behind.closeBlock? = some (closing, closed))
    (same : name = some (String.ofList closing))
    (bodyIH : aim.Retyped depth .body input (.list statements) stop)
    (otherIH : aim.Retyped depth .body inner (.list others) behind) :
    aim.Retyped (depth + 1) (.blockTail name names) input
      (.blockTail (.between input stop (.block statements names))
        (some (.between inner behind (.block others [])))) closed := by
  intro moved carried met _
  have order := ((Input.le_skipBlank opened).trans (Input.le_skipTilde _)).trans
    (Input.le_of_eat? ends)
  obtain ⟨-, first, gap, second, clear⟩ := aim.met_parts body otherBody met (le_refl _)
    ((Input.le_of_eatElse? otherwise).trans order) (Input.le_of_closeBlock? closes) (by
      rintro ⟨node, member, holds⟩
      simp only [Yield.nodes, Option.toList_some, List.mem_cons, List.not_mem_nil, or_false]
        at member
      rcases member with rfl | rfl
      · exact .inl (aim.among_list_of_block holds)
      · exact .inr (aim.among_list_of_block holds))
  have elseAgain (reached : Input) (carried : t.Carried stop reached) :=
    carried.eatElse?_some aim.quiet otherwise (gap.left order)
  have closeAgain (reached : Input) (carried : t.Carried behind reached) :=
    carried.closeBlock?_some aim.quiet closes clear
  obtain ⟨one, body, middle⟩ := bodyIH carried first fun reached carried => by
    obtain ⟨two, otherwise, -⟩ := elseAgain reached carried
    exact Input.endsBody_of_eatElse? otherwise
  obtain ⟨two, otherwise, further⟩ := elseAgain one middle
  have spaced := further.skipBlank aim.quiet
  obtain ⟨three, ends, begun⟩ :=
    some_of_rel ((spaced.skipTilde aim.quiet).eat? aim.quiet (by decide)) ends
  obtain ⟨four, otherBody, ended⟩ := otherIH begun second fun reached carried => by
    obtain ⟨two, closes, -⟩ := closeAgain reached carried
    exact Input.endsBody_of_closeBlock? closes
  obtain ⟨five, closes, final⟩ := closeAgain four ended
  refine ⟨five, ?_, final⟩
  rw [Yield.map, Option.map_some, move, retype_between aim.quiet carried middle rfl,
    retype_between aim.quiet begun ended rfl]
  exact .blockElse body otherwise (by rw [← isSome_of_rel (spaced.eatClose? aim.quiet), last]) ends
    otherBody (ended.eatElse?_none aim.quiet noElse) closes same

/-- What stands behind `else` is the tag that continues the chain and its tail. -/
private theorem among_link
    (among : aim.Among (.list (call.nodes ++ program :: inverse.toList))) :
    aim.Among (.blockTag call nextNames) ∨ aim.Among (.blockTail program inverse) := by
  obtain ⟨node, member, holds⟩ := among
  rcases List.mem_append.mp member with member | member
  · exact .inl ⟨node, member, holds⟩
  · exact .inr ⟨node, member, holds⟩

private theorem within_link (tag : Reads depth .blockTag opened (.blockTag call nextNames) behind)
    (tail : Reads depth (.blockTail name nextNames) behind (.blockTail program inverse) closed)
    (among : aim.Among (.list (call.nodes ++ program :: inverse.toList))) :
    opened.offset ≤ t.start ∧ t.stop ≤ closed.offset := by
  have parts : aim.Among (.blockTag call nextNames) ∨ aim.Among (.blockTail program inverse) :=
    aim.among_link among
  rcases parts with among | among
  · obtain ⟨early, late⟩ := aim.within tag among
    exact ⟨early, late.trans (Input.offset_le tail.le)⟩
  · obtain ⟨early, late⟩ := aim.within tail among
    exact ⟨(Input.offset_le tag.le).trans early, late⟩

/-- The block that continues a chain keeps its form. -/
private theorem move_link {one four : Input} (begun : t.Carried stop one)
    (ended : t.Carried closed four) :
    aim.move (.mk none (.block [.between stop closed (.blockCall call program inverse)] [])) =
      .mk none (.block [.between one four (.blockCall (call.map aim.move) (aim.move program)
        (inverse.map aim.move))] []) := by
  have block : aim.move (.between stop closed (.blockCall call program inverse)) =
      .between one four (.blockCall (call.map aim.move) (aim.move program)
        (inverse.map aim.move)) := retype_between aim.quiet begun ended rfl
  rw [← block, move, retype_mk]
  rfl

theorem retyped_blockChain (body : Reads depth .body input (.list statements) stop)
    (otherwise : stop.eatElse? = some opened)
    (chained : opened.skipBlank.eatClose?.isSome = false)
    (tag : Reads depth .blockTag opened.skipBlank (.blockTag call nextNames) behind)
    (tail : Reads depth (.blockTail name nextNames) behind (.blockTail program inverse) closed)
    (bodyIH : aim.Retyped depth .body input (.list statements) stop)
    (tagIH : aim.Retyped depth .blockTag opened.skipBlank (.blockTag call nextNames) behind)
    (tailIH : aim.Retyped depth (.blockTail name nextNames) behind (.blockTail program inverse)
      closed) :
    aim.Retyped (depth + 1) (.blockTail name names) input
      (.blockTail (.between input stop (.block statements names))
        (some (.mk none (.block [.between stop closed (.blockCall call program inverse)] []))))
      closed := by
  intro moved carried met _
  have gap := (Input.le_of_eatElse? otherwise).trans (Input.le_skipBlank opened)
  -- Everything behind the statements is one part first, the tag and its tail are two parts of it.
  obtain ⟨-, first, clear, others, -⟩ := aim.met_of_within body.le (tag.le.trans tail.le)
    (aim.within body) (aim.within_link tag tail) met (le_refl _) gap (le_refl _) (by
      rintro ⟨node, member, holds⟩
      simp only [Yield.nodes, Option.toList_some, List.mem_cons, List.not_mem_nil, or_false]
        at member
      rcases member with rfl | rfl
      · exact .inl (aim.among_list_of_block holds)
      · obtain ⟨next, member, holds⟩ := aim.among_list_of_block holds
        obtain rfl := List.mem_singleton.mp member
        obtain ⟨child, member, holds⟩ := aim.below_of_holds rfl rfl holds
        exact .inr ⟨child, by simpa using member, holds⟩)
  obtain ⟨-, second, -, third, -⟩ :=
    aim.met_parts tag tail others (le_refl _) (le_refl _) (le_refl _) aim.among_link
  have again (reached : Input) (carried : t.Carried stop reached) :=
    carried.eatElse?_some aim.quiet otherwise (clear.left (Input.le_skipBlank _))
  obtain ⟨one, body, middle⟩ := bodyIH carried first fun reached carried => by
    obtain ⟨two, otherwise, -⟩ := again reached carried
    exact Input.endsBody_of_eatElse? otherwise
  obtain ⟨two, otherwise, further⟩ := again one middle
  have spaced := further.skipBlank aim.quiet
  obtain ⟨three, tag, tagged⟩ := tagIH spaced second trivial
  obtain ⟨four, tail, last⟩ := tailIH tagged third trivial
  refine ⟨four, ?_, last⟩
  rw [Yield.map, Option.map_some, aim.move_link middle last, move,
    retype_between aim.quiet carried middle rfl]
  exact .blockChain body otherwise (by rw [← isSome_of_rel (spaced.eatClose? aim.quiet), chained])
    tag tail

end Blocks

/-! ## All constructs -/

/-- Whatever is read of a text is read again after typing. -/
theorem retyped {production : Production} (reads : Reads depth production input yield closed) :
    aim.Retyped depth production input yield closed := by
  induction reads with
  | subExpression opens invoked closes ih => exact aim.retyped_subExpression opens invoked closes ih
  | string plain quoted read => exact aim.retyped_string plain quoted read
  | word plain bare read => exact aim.retyped_word plain bare read
  | call called given calledIH givenIH => exact aim.retyped_call called given calledIH givenIH
  | noArguments more ends => exact aim.retyped_noArguments more ends
  | named goesOn named assigned rest assignedIH restIH =>
    exact aim.retyped_named goesOn named assigned rest assignedIH restIH
  | positional goesOn unnamed given rest givenIH restIH =>
    exact aim.retyped_positional goesOn unnamed given rest givenIH restIH
  | trusting third invoked closes ih => exact aim.retyped_trusting third invoked closes ih
  | mustache plain invoked closes ih => exact aim.retyped_mustache plain invoked closes ih
  | modifier invoked closes ih => exact aim.retyped_modifier invoked closes ih
  | blockTag invoked declared closes ih => exact aim.retyped_blockTag invoked declared closes ih
  | lastPiece upTo more closes => exact aim.retyped_lastPiece upTo more closes
  | pieces upTo more open_ invoked rest invokedIH restIH =>
    exact aim.retyped_pieces upTo more open_ invoked rest invokedIH restIH
  | mustacheValue opens invoked ih => exact aim.retyped_mustacheValue opens invoked ih
  | quotedValue plain quoted inside ih => exact aim.retyped_quotedValue plain quoted inside ih
  | bareValue plain bare taken => exact aim.retyped_bareValue plain bare taken
  | valueless named ends => exact aim.retyped_valueless named ends
  | attr named equals assigned ih => exact aim.retyped_attr named equals assigned ih
  | selfClosed more closes => exact aim.retyped_selfClosed more closes
  | tagEnd more open_ closes => exact aim.retyped_tagEnd more open_ closes
  | tagComment stays opens comment rest ih =>
    exact aim.retyped_tagComment stays opens comment rest ih
  | tagModifier stays plain opens invoked rest invokedIH restIH =>
    exact aim.retyped_tagModifier stays plain opens invoked rest invokedIH restIH
  | tagParams stays plain bare declared rest ih =>
    exact aim.retyped_tagParams stays plain bare declared rest ih
  | tagAttribute stays plain bare undeclared taken rest takenIH restIH =>
    exact aim.retyped_tagAttribute stays plain bare undeclared taken rest takenIH restIH
  | noStatements => exact aim.retyped_noStatements
  | statements goesOn head rest headIH restIH =>
    exact aim.retyped_statements goesOn head rest headIH restIH
  | mustacheComment opens comment => exact aim.retyped_mustacheComment opens comment
  | block plain opens block hash tag tail tagIH tailIH =>
    exact aim.retyped_block plain opens block hash tag tail tagIH tailIH
  | mustacheStatement plain opens single invoked ih =>
    exact aim.retyped_mustacheStatement plain opens single invoked ih
  | comment plain bare opens comment => exact aim.retyped_comment plain bare opens comment
  | element plain bare visible tagged read ih =>
    exact aim.retyped_element plain bare visible tagged read ih
  | text plain bare visible untagged => exact aim.retyped_text plain bare visible untagged
  | blockEnd body noElse closes same ih => exact aim.retyped_blockEnd body noElse closes same ih
  | blockElse body otherwise last ends otherBody noElse closes same bodyIH otherIH =>
    exact aim.retyped_blockElse body otherwise last ends otherBody noElse closes same bodyIH otherIH
  | blockChain body otherwise chained tag tail bodyIH tagIH tailIH =>
    exact aim.retyped_blockChain body otherwise chained tag tail bodyIH tagIH tailIH
  | bareElement startTag bare ih => exact aim.retyped_bareElement startTag bare ih
  | filledElement startTag filled inside closes ends startIH insideIH =>
    exact aim.retyped_filledElement startTag filled inside closes ends startIH insideIH

end EmberAssist.Template.Typing.Target
