import EmberAssist.Proofs.Template.Retyping

/-! Typing does not change how a text is read. As long as the token is what a mustache or a
subexpression invokes, or a string literal, the text in which something is typed into it is read by
the same rules, and gives the same tree but for the token. -/
namespace EmberAssist.Template

variable {depth deeper : Nat} {production other : Production} {yield whole left right : Yield}
variable {input opened inner behind next stop closed moved : Input} {node : Node Span}

/-! ## Targets -/

/-- A token that is typed into: what its `holder` invokes, or itself a string literal. Where it was
read as an expression, it still is one, of another spelling. -/
structure Typing.Target (t : Typing) where
  token : Node Span
  holder : Node Span
  fresh : Layer (Node Span)
  quiet : t.Quiet
  placed : token.range = some t.span
  spelled : (spelling? token.layer).isSome = true
  respelled : (spelling? fresh).isSome = true
  held : invoked? holder.layer = some token ∨
    holder = token ∧ pathSpelling? token.layer = none ∧ pathSpelling? fresh = none
  rereads : ∀ {depth input moved closed}, Reads depth .expression input (.node token) closed →
    t.Carried input moved → ∃ reached,
      Reads depth .expression moved (.node (t.retype fresh token)) reached ∧ t.Carried closed reached

namespace Typing.Target

variable {t : Typing}

/-- A tree after typing. -/
def move (aim : t.Target) : Node Span → Node Span := t.retype aim.fresh

/-- The token is part of what a construct gives, in a way that only the token's spelling matters. -/
def Among (aim : t.Target) : Yield → Prop
  | .node found => found = aim.token ∨ found.Holds aim.holder
  | .call found | .mustache found _ =>
    found.callee = aim.token ∨ ∃ node ∈ found.nodes, node.Holds aim.holder
  | yield => ∃ node ∈ yield.nodes, node.Holds aim.holder

variable (aim : t.Target)

theorem holds_token : aim.holder.Holds aim.token := by
  rcases aim.held with invoked | ⟨same, -⟩
  · exact Node.holds_iff.mpr (.inr ⟨_, mem_children_of_invoked? invoked, .self _⟩)
  · rw [same]
    exact .self _

theorem exists_of_among (among : aim.Among yield) : ∃ node ∈ yield.nodes, node.Holds aim.token := by
  have below : (∃ node ∈ yield.nodes, node.Holds aim.holder) →
      ∃ node ∈ yield.nodes, node.Holds aim.token := fun ⟨node, member, holds⟩ =>
    ⟨node, member, Node.Holds.trans holds aim.holds_token⟩
  cases yield with
  | node found =>
    rcases among with rfl | holds
    · exact ⟨_, by simp, .self _⟩
    · exact below ⟨found, by simp, holds⟩
  | call found | mustache found =>
    rcases among with same | holds
    · exact ⟨found.callee, by simp [Call.nodes], same ▸ .self _⟩
    · exact below holds
  | _ => exact below among

/-- What gives the token was read around it. -/
theorem within (reads : Reads depth production input yield closed) (among : aim.Among yield) :
    input.offset ≤ t.start ∧ t.stop ≤ closed.offset := by
  obtain ⟨node, member, holds⟩ := aim.exists_of_among among
  exact reads.bounds member holds aim.placed

/-- A node without a spelling gives the token because it invokes it, or because a part of it does. -/
theorem below (plain : spelling? node.layer = none) (among : aim.Among (.node node)) :
    invoked? node.layer = some aim.token ∨ ∃ child ∈ node.children, child.Holds aim.holder := by
  have differ : node ≠ aim.token := by
    rintro rfl
    have spelled := aim.spelled
    rw [plain] at spelled
    cases spelled
  rcases among with same | holds
  · exact absurd same differ
  · rcases Node.holds_iff.mp holds with same | inside
    · rw [← same]
      refine .inl (aim.held.resolve_right fun held => differ ?_)
      rw [← same, held.1]
    · exact .inr inside

theorem holds_of_among (plain : spelling? node.layer = none) (among : aim.Among (.node node)) :
    node.Holds aim.holder := by
  refine among.resolve_left ?_
  rintro rfl
  have spelled := aim.spelled
  rw [plain] at spelled
  cases spelled

theorem not_among_leaf (plain : spelling? node.layer = none) (leaf : node.children = []) :
    ¬ aim.Among (.node node) := by
  intro among
  rcases aim.below plain among with invoked | ⟨child, member, -⟩
  · have member := mem_children_of_invoked? invoked
    rw [show node.layer.children = [] from leaf] at member
    cases member
  · rw [leaf] at member
    cases member

/-! ## Where the token is -/

/-- A construct is read without the token, or it gives the token. -/
def Met (aim : t.Target) (input : Input) (yield : Yield) (closed : Input) : Prop :=
  t.Clear input closed ∨ aim.Among yield

/-- Around the part of a construct that gives the token nothing is the token. -/
theorem met_part (part : Reads depth production opened yield behind)
    (met : aim.Met input whole closed) (before : input ≤ opened) (after : behind ≤ closed)
    (among : aim.Among whole → aim.Among yield) :
    t.Clear input opened ∧ aim.Met opened yield behind ∧ t.Clear behind closed := by
  rcases met with clear | met
  · have order := part.le
    exact ⟨clear.left (order.trans after), .inl ((clear.right before).left after),
      clear.right (before.trans order)⟩
  · obtain ⟨early, late⟩ := aim.within part (among met)
    exact ⟨.inl early, .inr (among met), .inr late⟩

/-- One of two parts of a construct gives the token, and nothing else is the token. -/
theorem met_of_within (first : opened ≤ behind) (second : next ≤ stop)
    (firstWithin : aim.Among left → opened.offset ≤ t.start ∧ t.stop ≤ behind.offset)
    (secondWithin : aim.Among right → next.offset ≤ t.start ∧ t.stop ≤ stop.offset)
    (met : aim.Met input whole closed) (before : input ≤ opened) (gap : behind ≤ next)
    (after : stop ≤ closed) (among : aim.Among whole → aim.Among left ∨ aim.Among right) :
    t.Clear input opened ∧ aim.Met opened left behind ∧ t.Clear behind next ∧
      aim.Met next right stop ∧ t.Clear stop closed := by
  have through := first.trans gap
  have onward := gap.trans second
  rcases met with clear | met
  · exact ⟨clear.left (through.trans (second.trans after)),
      .inl ((clear.right before).left (onward.trans after)),
      (clear.right (before.trans first)).left (second.trans after),
      .inl ((clear.right (before.trans through)).left after),
      clear.right (before.trans (through.trans second))⟩
  · rcases among met with met | met
    · obtain ⟨early, late⟩ := firstWithin met
      have between := Input.offset_le gap
      have last := Input.offset_le onward
      exact ⟨.inl early, .inr met, .inr late, .inl (.inr (late.trans between)),
        .inr (late.trans last)⟩
    · obtain ⟨early, late⟩ := secondWithin met
      have between := Input.offset_le gap
      have start := Input.offset_le through
      exact ⟨.inl (start.trans early), .inl (.inl (between.trans early)), .inl early, .inr met,
        .inr late⟩

theorem met_parts (first : Reads depth production opened left behind)
    (second : Reads deeper other next right stop) (met : aim.Met input whole closed)
    (before : input ≤ opened) (gap : behind ≤ next) (after : stop ≤ closed)
    (among : aim.Among whole → aim.Among left ∨ aim.Among right) :
    t.Clear input opened ∧ aim.Met opened left behind ∧ t.Clear behind next ∧
      aim.Met next right stop ∧ t.Clear stop closed :=
  aim.met_of_within first.le second.le (aim.within first) (aim.within second) met before gap after
    among

end Typing.Target

/-- What must be known of the end of a construct for it to be read again: the statements of a body
end there in both texts, and a quoted value ends at a quote. -/
def Production.Meant (t : Typing) : Production → Input → Prop
  | .body, closed => ∀ reached, t.Carried closed reached → reached.endsBody = true
  | .pieces quote, _ => quote = '\'' ∨ quote = '"'
  | _, _ => True

namespace Typing.Target

variable {t : Typing} (aim : t.Target)

/-- A construct is read again after typing, up to the same place. -/
def Retyped (aim : t.Target) (depth : Nat) (production : Production) (input : Input) (yield : Yield)
    (closed : Input) : Prop :=
  ∀ ⦃moved : Input⦄, t.Carried input moved → aim.Met input yield closed →
    production.Meant t closed →
    ∃ reached, Reads depth production moved (yield.map aim.move) reached ∧ t.Carried closed reached

/-! ## Expressions -/

section Expressions
variable {call : Call (Node Span)}

theorem eq_token_of_leaf (leaf : node.children = []) (single : invoked? node.layer = none)
    (among : aim.Among (.node node)) : node = aim.token := by
  rcases among with same | holds
  · exact same
  · rcases Node.holds_iff.mp holds with same | ⟨child, member, -⟩
    · rcases aim.held with invoked | ⟨held, -⟩
      · rw [same, single] at invoked
        cases invoked
      · rw [← same, held]
    · rw [leaf] at member
      cases member

theorem among_call_of_subExpression {place : Option Span}
    (among : aim.Among (.node (.mk place (.subExpression call)))) : aim.Among (.call call) := by
  rcases aim.below rfl among with invoked | ⟨child, member, holds⟩
  · exact .inl (Option.some.inj invoked)
  · exact .inr ⟨child, by simpa [Node.children, Node.layer] using member, holds⟩

theorem retyped_subExpression (opens : input.skipBlank.eat? ['('] = some opened)
    (invoked : Reads depth .call opened (.call call) behind)
    (closes : behind.skipBlank.eat? [')'] = some closed)
    (ih : aim.Retyped depth .call opened (.call call) behind) :
    aim.Retyped (depth + 1) .expression input
      (.node (.between input.skipBlank closed (.subExpression call))) closed := by
  intro moved carried met _
  obtain ⟨-, inside, -⟩ := aim.met_part invoked met
    ((Input.le_skipBlank _).trans (Input.le_of_eat? opens))
    ((Input.le_skipBlank _).trans (Input.le_of_eat? closes)) aim.among_call_of_subExpression
  have spaced := carried.skipBlank aim.quiet
  obtain ⟨one, opens, first⟩ := some_of_rel (spaced.eat? aim.quiet (by decide)) opens
  obtain ⟨two, invoked, second⟩ := ih first inside trivial
  obtain ⟨three, closes, last⟩ :=
    some_of_rel ((second.skipBlank aim.quiet).eat? aim.quiet (by decide)) closes
  refine ⟨three, ?_, last⟩
  rw [Yield.map, move, retype_between aim.quiet spaced last rfl]
  exact .subExpression opens invoked closes

theorem retyped_of_eq_token (reads : Reads depth .expression input (.node node) closed)
    (carried : t.Carried input moved) (same : node = aim.token) :
    ∃ reached, Reads depth .expression moved ((Yield.node node).map aim.move) reached ∧
      t.Carried closed reached := by
  subst same
  exact aim.rereads reads carried

theorem retyped_string {quote : Char} (plain : input.skipBlank.eat? ['('] = none)
    (quoted : quoteAhead input.skipBlank = some quote)
    (read : readString input.skipBlank quote = .ok (node, closed)) :
    aim.Retyped (depth + 1) .expression input (.node node) closed := by
  intro moved carried met _
  have reads : Reads (depth + 1) .expression input (.node node) closed := .string plain quoted read
  obtain ⟨value, tail, rfl⟩ := readString_eq_ok.mp read
  rcases met with clear | among
  · have clear := clear.right (Input.le_skipBlank input)
    have spaced := carried.skipBlank aim.quiet
    have plain := none_of_rel (spaced.eat? aim.quiet (by decide)) plain
    obtain ⟨one, tail, last⟩ := spaced.stringTail?_some aim.quiet quoted tail clear
    rw [spaced.quoteAhead aim.quiet] at quoted
    refine ⟨one, ?_, last⟩
    rw [Yield.map, move, retype_between_of_clear aim.quiet spaced last clear]
    exact .string plain quoted (readString_eq_ok.mpr ⟨value, tail, rfl⟩)
  · exact aim.retyped_of_eq_token reads carried (aim.eq_token_of_leaf rfl rfl among)

theorem retyped_word (plain : input.skipBlank.eat? ['('] = none)
    (bare : quoteAhead input.skipBlank = none)
    (read : readWord input.skipBlank = .ok (node, closed)) :
    aim.Retyped (depth + 1) .expression input (.node node) closed := by
  intro moved carried met _
  have reads : Reads (depth + 1) .expression input (.node node) closed := .word plain bare read
  have spaced := carried.skipBlank aim.quiet
  have plain := none_of_rel (spaced.eat? aim.quiet (by decide)) plain
  have bare : quoteAhead moved.skipBlank = none := by rw [← spaced.quoteAhead aim.quiet, bare]
  have number := spaced.number? aim.quiet
  rcases met with clear | among
  · have clear := clear.right (Input.le_skipBlank input)
    rcases readWord_eq_ok.mp read with ⟨found, counted, rfl⟩ | ⟨uncounted, word, taken, rfl⟩
    · obtain ⟨one, counted, last⟩ := of_rel_told number counted
      refine ⟨one, ?_, last⟩
      rw [Yield.map, move, retype_between_of_clear aim.quiet spaced last clear]
      exact .word plain bare (readWord_eq_ok.mpr (.inl ⟨found, counted, rfl⟩))
    · obtain ⟨one, taken, last⟩ := spaced.takeSome?_some aim.quiet agrees_path taken clear
      refine ⟨one, ?_, last⟩
      rw [Yield.map, move, retype_between_of_clear aim.quiet spaced last clear, Layer.map_wordLayer]
      exact .word plain bare (readWord_eq_ok.mpr (.inr ⟨none_of_rel number uncounted, word, taken,
        rfl⟩))
  · refine aim.retyped_of_eq_token reads carried (aim.eq_token_of_leaf ?_ ?_ among)
    · rcases readWord_eq_ok.mp read with ⟨found, -, rfl⟩ | ⟨-, word, -, rfl⟩
      · rfl
      · exact Layer.children_wordLayer word
    · rcases readWord_eq_ok.mp read with ⟨found, -, rfl⟩ | ⟨-, word, -, rfl⟩
      · rfl
      · exact invoked?_wordLayer word

end Expressions

/-! ## Invocations -/

section Invocations
variable {call : Call (Node Span)} {params pairs : List (Node Span)}

theorem below_of_holds (plain : spelling? node.layer = none) (single : invoked? node.layer = none)
    (holds : node.Holds aim.holder) : ∃ child ∈ node.children, child.Holds aim.holder := by
  rcases aim.below plain (.inr holds) with invoked | inside
  · rw [single] at invoked
    cases invoked
  · exact inside

theorem retyped_call {callee : Node Span}
    (called : Reads depth .expression input (.node callee) behind)
    (given : Reads depth (.arguments false) behind (.arguments params pairs) closed)
    (calledIH : aim.Retyped depth .expression input (.node callee) behind)
    (givenIH : aim.Retyped depth (.arguments false) behind (.arguments params pairs) closed) :
    aim.Retyped (depth + 1) .call input (.call ⟨callee, params, hashOf pairs⟩) closed := by
  intro moved carried met _
  obtain ⟨-, first, -, second, -⟩ := aim.met_parts called given met (le_refl _) (le_refl _)
    (le_refl _) (by
      rintro (same | ⟨node, member, holds⟩)
      · exact .inl (.inl same)
      · simp only [Call.nodes, List.mem_cons, List.mem_append, List.not_mem_nil, or_false] at member
        rcases member with rfl | member | rfl
        · exact .inl (.inr holds)
        · exact .inr ⟨node, List.mem_append_left _ member, holds⟩
        · obtain ⟨pair, member, holds⟩ := aim.below_of_holds rfl rfl holds
          simp only [hashOf, Node.children, Node.layer, Layer.children_hash] at member
          exact .inr ⟨pair, List.mem_append_right _ member, holds⟩)
  obtain ⟨one, called, middle⟩ := calledIH carried first trivial
  obtain ⟨two, given, last⟩ := givenIH middle second trivial
  refine ⟨two, ?_, last⟩
  rw [Yield.map, Call.map, move, retype_hashOf]
  exact .call called given

theorem retyped_noArguments {afterNamed : Bool} (more : input.skipBlank.atEnd = false)
    (ends : input.skipBlank.seesCallEnd = true) :
    aim.Retyped (depth + 1) (.arguments afterNamed) input (.arguments [] []) input.skipBlank := by
  intro moved carried _ _
  have spaced := carried.skipBlank aim.quiet
  refine ⟨_, .noArguments ?_ ?_, spaced⟩
  · rw [← spaced.atEnd aim.quiet, more]
  · rw [← spaced.seesCallEnd aim.quiet, ends]

theorem retyped_named {afterNamed : Bool} {name : List Char} {value : Node Span}
    (goesOn : input.skipBlank.GoesOn)
    (named : input.skipBlank.argumentName? = some (name, behind))
    (assigned : Reads depth .expression behind (.node value) next)
    (rest : Reads depth (.arguments true) next (.arguments params pairs) closed)
    (assignedIH : aim.Retyped depth .expression behind (.node value) next)
    (restIH : aim.Retyped depth (.arguments true) next (.arguments params pairs) closed) :
    aim.Retyped (depth + 1) (.arguments afterNamed) input (.arguments params
      (.between input.skipBlank next (.hashPair (String.ofList name) value) :: pairs)) closed := by
  intro moved carried met _
  obtain ⟨clear, first, -, second, -⟩ := aim.met_parts assigned rest met
    ((Input.le_skipBlank _).trans (Input.le_of_argumentName? named)) (le_refl _) (le_refl _) (by
      rintro ⟨node, member, holds⟩
      simp only [Yield.nodes, List.mem_append, List.mem_cons] at member
      rcases member with member | rfl | member
      · exact .inr ⟨node, List.mem_append_left _ member, holds⟩
      · obtain ⟨child, member, inside⟩ := aim.below_of_holds rfl rfl holds
        have same : child = value := by simpa using member
        exact .inl (.inr (same ▸ inside))
      · exact .inr ⟨node, List.mem_append_right _ member, holds⟩)
  have spaced := carried.skipBlank aim.quiet
  obtain ⟨one, named, start⟩ :=
    spaced.argumentName?_some aim.quiet named (clear.right (Input.le_skipBlank _))
  obtain ⟨two, assigned, middle⟩ := assignedIH start first trivial
  obtain ⟨three, rest, last⟩ := restIH middle second trivial
  refine ⟨three, ?_, last⟩
  rw [Yield.map, List.map_cons, move, retype_between aim.quiet spaced middle rfl]
  exact .named (spaced.goesOn aim.quiet goesOn) named assigned rest

theorem retyped_positional {param : Node Span} (goesOn : input.skipBlank.GoesOn)
    (unnamed : input.skipBlank.argumentName? = none)
    (given : Reads depth .expression input.skipBlank (.node param) next)
    (rest : Reads depth (.arguments false) next (.arguments params pairs) closed)
    (givenIH : aim.Retyped depth .expression input.skipBlank (.node param) next)
    (restIH : aim.Retyped depth (.arguments false) next (.arguments params pairs) closed) :
    aim.Retyped (depth + 1) (.arguments false) input (.arguments (param :: params) pairs)
      closed := by
  intro moved carried met _
  obtain ⟨-, first, -, second, -⟩ := aim.met_parts given rest met (Input.le_skipBlank _)
    (le_refl _) (le_refl _) (by
      rintro ⟨node, member, holds⟩
      simp only [Yield.nodes, List.cons_append, List.mem_cons] at member
      rcases member with rfl | member
      · exact .inl (.inr holds)
      · exact .inr ⟨node, member, holds⟩)
  have spaced := carried.skipBlank aim.quiet
  obtain ⟨one, given, middle⟩ := givenIH spaced first trivial
  obtain ⟨two, rest, last⟩ := restIH middle second trivial
  exact ⟨two, .positional (spaced.goesOn aim.quiet goesOn)
    (spaced.argumentName?_none aim.quiet unnamed) given rest, last⟩

theorem retyped_trusting (third : input.eat? ['{'] = some inner)
    (invoked : Reads depth .call inner.skipTilde (.call call) behind)
    (closes : behind.skipTilde.eat? ('}' :: closeBraces) = some closed)
    (ih : aim.Retyped depth .call inner.skipTilde (.call call) behind) :
    aim.Retyped depth .mustache input (.mustache call true) closed := by
  intro moved carried met _
  obtain ⟨-, inside, -⟩ := aim.met_part invoked met
    ((Input.le_of_eat? third).trans (Input.le_skipTilde _))
    ((Input.le_skipTilde _).trans (Input.le_of_eat? closes)) id
  obtain ⟨one, third, start⟩ := some_of_rel (carried.eat? aim.quiet (by decide)) third
  obtain ⟨two, invoked, middle⟩ := ih (start.skipTilde aim.quiet) inside trivial
  obtain ⟨three, closes, last⟩ :=
    some_of_rel ((middle.skipTilde aim.quiet).eat? aim.quiet (by decide)) closes
  exact ⟨three, .trusting third invoked closes, last⟩

/-- An invocation between braces is read again up to its closer. -/
private theorem exists_braced (invoked : Reads depth .call input.skipTilde (.call call) behind)
    (closes : behind.skipTilde.eat? closeBraces = some closed)
    (ih : aim.Retyped depth .call input.skipTilde (.call call) behind)
    (carried : t.Carried input moved) (met : aim.Met input (.call call) closed) :
    ∃ one reached, Reads depth .call moved.skipTilde (.call (call.map aim.move)) one ∧
      one.skipTilde.eat? closeBraces = some reached ∧ t.Carried closed reached := by
  obtain ⟨-, inside, -⟩ := aim.met_part invoked met (Input.le_skipTilde _)
    ((Input.le_skipTilde _).trans (Input.le_of_eat? closes)) id
  obtain ⟨one, invoked, middle⟩ := ih (carried.skipTilde aim.quiet) inside trivial
  obtain ⟨two, closes, last⟩ :=
    some_of_rel ((middle.skipTilde aim.quiet).eat? aim.quiet (by decide)) closes
  exact ⟨one, two, invoked, closes, last⟩

theorem retyped_mustache (plain : input.eat? ['{'] = none)
    (invoked : Reads depth .call input.skipTilde (.call call) behind)
    (closes : behind.skipTilde.eat? closeBraces = some closed)
    (ih : aim.Retyped depth .call input.skipTilde (.call call) behind) :
    aim.Retyped depth .mustache input (.mustache call false) closed := by
  intro moved carried met _
  obtain ⟨one, reached, invoked, closes, last⟩ := aim.exists_braced invoked closes ih carried met
  exact ⟨reached, .mustache (none_of_rel (carried.eat? aim.quiet (by decide)) plain) invoked closes,
    last⟩

theorem retyped_modifier (invoked : Reads depth .call input.skipTilde (.call call) behind)
    (closes : behind.skipTilde.eat? closeBraces = some closed)
    (ih : aim.Retyped depth .call input.skipTilde (.call call) behind) :
    aim.Retyped depth .modifier input (.call call) closed := by
  intro moved carried met _
  obtain ⟨one, reached, invoked, closes, last⟩ := aim.exists_braced invoked closes ih carried met
  exact ⟨reached, .modifier invoked closes, last⟩

theorem retyped_blockTag {names : List String}
    (invoked : Reads depth .call input (.call call) behind)
    (declared : behind.skipBlank.blockParams?.getD ([], behind.skipBlank) = (names, next))
    (closes : next.skipTilde.eat? closeBraces = some closed)
    (ih : aim.Retyped depth .call input (.call call) behind) :
    aim.Retyped depth .blockTag input (.blockTag call names) closed := by
  intro moved carried met _
  have order := (Input.le_skipTilde next).trans (Input.le_of_eat? closes)
  have spread := (Input.le_skipBlank behind).trans (Input.le_of_declared declared)
  obtain ⟨-, inside, clear⟩ := aim.met_part invoked met (le_refl _) (spread.trans order) .inr
  obtain ⟨one, invoked, middle⟩ := ih carried inside trivial
  have spaced := middle.skipBlank aim.quiet
  obtain ⟨two, declared, before⟩ : ∃ two,
      one.skipBlank.blockParams?.getD ([], one.skipBlank) = (names, two) ∧ t.Carried next two := by
    cases read : behind.skipBlank.blockParams? with
    | none =>
      rw [read] at declared
      cases declared
      exact ⟨_, by rw [spaced.blockParams?_none aim.quiet read]; rfl, spaced⟩
    | some found =>
      rw [read] at declared
      cases declared
      obtain ⟨two, again, before⟩ := spaced.blockParams?_some aim.quiet read
        ((clear.right (Input.le_skipBlank _)).left order)
      exact ⟨two, by rw [again]; rfl, before⟩
  obtain ⟨three, closes, last⟩ :=
    some_of_rel ((before.skipTilde aim.quiet).eat? aim.quiet (by decide)) closes
  exact ⟨three, .blockTag invoked declared closes, last⟩

end Invocations

end Typing.Target

end EmberAssist.Template
