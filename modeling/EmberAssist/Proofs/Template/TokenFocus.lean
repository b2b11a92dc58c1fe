import EmberAssist.Proofs.Template.Focusing
import EmberAssist.Proofs.Template.Placeholder

/-! Completion does not depend on where in a token the cursor is. -/
namespace EmberAssist.Template

open Node

/-! ## What a trail says of its focus -/

section Trails
variable {α β γ : Type}

theorem isSome_pathSpelling? (layer : Layer α) :
    (pathSpelling? layer).isSome = (layer.typeName == "PathExpression") := by
  cases layer <;> rfl

theorem isSome_stringValue? (layer : Layer α) :
    (stringValue? layer).isSome = (layer.typeName == "StringLiteral") := by
  cases layer <;> rfl

variable [NodeLike β] [NodeLike γ]

/-- What can be completed depends on the kinds of the focus and of its parent, on the slot between
them and, in strings, on what the parent calls. -/
theorem Trail.context_eq {trail : Trail β} {other : Trail γ} {layer : Layer α} {f : α → β} {g : α → γ}
    (first : trail.parentLayer? = some (layer.map f))
    (second : other.parentLayer? = some (layer.map g)) (paths : trail.isAtPath = other.isAtPath)
    (strings : trail.isAtString = other.isAtString)
    (held : ∀ slot, trail.isHeldIn slot = other.isHeldIn slot)
    (called : trail.isAtString = true → ∀ callee, (Slot.callee, callee) ∈ layer.slots →
      pathSpelling? (NodeLike.layer (f callee)) = pathSpelling? (NodeLike.layer (g callee))) :
    trail.context = other.context ∧ trail.isPhraseKey = other.isPhraseKey := by
  rw [strings] at called
  unfold Trail.context Trail.isPhraseKey Trail.isMustachePath Trail.isBlockPath
    Trail.isSubExpressionPath Trail.isLinkTarget
  rw [first, second, paths, strings]
  cases string : other.isAtString with
  | false => cases layer <;> simp [Layer.map, held]
  | true =>
    have called := called string
    cases layer with
    | mustache call trusting =>
      have same := called call.callee (by simp [Layer.slots, Layer.callSlots])
      simp [Layer.map, held, Trail.calls, same]
    | blockCall call program inverse =>
      have same := called call.callee (by simp [Layer.slots, Layer.callSlots])
      simp [Layer.map, held, Trail.calls, same]
    | subExpression call =>
      have same := called call.callee (by simp [Layer.slots, Layer.callSlots])
      simp [Layer.map, held, Trail.calls, same]
    | _ => simp [Layer.map]

end Trails

/-- The trail of a node and of what holds it. -/
def Trail.ofPair (parent : Node Range) (slot : Slot) (node : Node Range) : Trail (Node Range) :=
  ⟨[⟨parent, []⟩, ⟨node, [slot]⟩], 1⟩

/-- A trail in a patched text leads to a token: to a node of the same kind at the same place, held in
the same slot of a parent of the same kind. What has been typed of it is its spelling, and the same
can be completed there. -/
structure Trail.LeadsTo (placeholder : String) (trail : Trail (Node Range)) (parent : Node Range)
    (slot : Slot) (node : Node Range) : Prop where
  focus : ∃ visit, trail.focus? = some visit ∧ visit.slots = [slot] ∧
    visit.layer.typeName = node.layer.typeName ∧
    visit.node.range.map Range.start = node.range.map Range.start
  above : ∃ visit above, trail.focus? = some visit ∧ trail.parent? = some above ∧
    above.layer.typeName = parent.layer.typeName ∧ above.node.child? slot = some visit.node
  typed : spelling? node.layer = some (typedText placeholder trail)
  context : trail.context = (ofPair parent slot node).context
  key : trail.isPhraseKey = (ofPair parent slot node).isPhraseKey

namespace Typing

variable {t : Typing} {document : Document} {p : Position} {placeholder spelling : String}
variable {parent : Node Span} {slot : Slot} {slots : List Slot} {trail : Trail (Node Range)}

/-- What a parent calls is called by the same name after typing into a string. -/
private theorem Target.pathSpelling?_callee (aim : t.Target) (laminar : parent.Laminar)
    (held : parent.child? slot = some aim.token) (string : pathSpelling? aim.token.layer = none)
    (fresh : pathSpelling? aim.fresh = none) {callee : Node Span}
    (there : parent.child? .callee = some callee) :
    pathSpelling? (aim.move callee).layer = pathSpelling? callee.layer := by
  by_cases here : callee.range = some t.span
  · obtain rfl : Slot.callee = slot := by
      by_contra differ
      have apart := laminar.apart_fronts there held differ (by simp [front_of_range here]; rfl)
        (by simp [front_of_range aim.placed]; rfl)
      have nonempty := aim.quiet.start_lt_stop
      rcases apart with apart | apart
      · simp only [Stretch.first, Stretch.last, span] at apart
        omega
      · simp only [Stretch.first, Stretch.last, span] at apart
        omega
    cases held.symm.trans there
    rw [aim.layer_move, string, fresh]
  · rw [move, layer_retype_of_ne here, pathSpelling?_map]

private theorem Target.layer_shown (aim : t.Target) (held : parent.child? slot = some aim.token) :
    (aim.shown parent).layer = parent.layer.map aim.shown := by
  rw [shown, layer_inText, move, layer_retype (spelling?_of_child? held), Layer.map_map]
  rfl

private theorem Target.layer_shown_token (aim : t.Target) :
    (aim.shown aim.token).layer = aim.fresh.map (inText t.patched) := by
  rw [shown, layer_inText, aim.layer_move]

private theorem Target.typeName_shown_token (aim : t.Target)
    (kind : aim.fresh.typeName = aim.token.layer.typeName) (chars : List Char) :
    (aim.shown aim.token).layer.typeName = (aim.token.inText chars).layer.typeName := by
  rw [aim.layer_shown_token, layer_inText, Layer.typeName_map, Layer.typeName_map, kind]

/-- What can be completed at a token after typing is what could be completed at it before. -/
private theorem Target.context_eq (aim : t.Target) (chars : List Char) (laminar : parent.Laminar)
    (held : parent.child? slot = some aim.token)
    (focus : trail.focus? = some ⟨aim.shown aim.token, [slot]⟩)
    (above : trail.parent? = some ⟨aim.shown parent, slots⟩)
    (kind : aim.fresh.typeName = aim.token.layer.typeName) :
    trail.context = (Trail.ofPair (parent.inText chars) slot (aim.token.inText chars)).context ∧
      trail.isPhraseKey =
        (Trail.ofPair (parent.inText chars) slot (aim.token.inText chars)).isPhraseKey := by
  have kinds := aim.typeName_shown_token kind chars
  have first : trail.parentLayer? = some (parent.layer.map aim.shown) := by
    rw [← aim.layer_shown held, Trail.parentLayer?, above]
    rfl
  have second : (Trail.ofPair (parent.inText chars) slot (aim.token.inText chars)).parentLayer? =
      some (parent.layer.map (inText chars)) := by
    rw [← layer_inText]
    rfl
  have path : trail.isAtPath = (pathSpelling? (aim.shown aim.token).layer).isSome := by
    rw [Trail.isAtPath, focus]
    rfl
  have string : trail.isAtString = (stringValue? (aim.shown aim.token).layer).isSome := by
    rw [Trail.isAtString, focus]
    rfl
  refine Trail.context_eq first second ?_ ?_ ?_ ?_
  · rw [path, isSome_pathSpelling?, kinds, ← isSome_pathSpelling?]
    rfl
  · rw [string, isSome_stringValue?, kinds, ← isSome_stringValue?]
    rfl
  · intro slot
    rw [Trail.isHeldIn, focus]
    rfl
  -- Only in strings does what the parent calls matter, and a string is no name that is called.
  · intro atString callee there
    rw [string, aim.layer_shown_token, stringValue?_map, isSome_stringValue?] at atString
    have noPath {layer : Layer (Node Span)} (same : layer.typeName = aim.fresh.typeName) :
        pathSpelling? layer = none := by
      rw [← Option.not_isSome_iff_eq_none, isSome_pathSpelling?, same, beq_iff_eq.mp atString]
      decide
    change pathSpelling? (aim.shown callee).layer = pathSpelling? (callee.inText chars).layer
    rw [shown, layer_inText, layer_inText, pathSpelling?_map, pathSpelling?_map]
    exact aim.pathSpelling?_callee laminar held (noPath kind.symm) (noPath rfl)
      (child?_eq_some.mpr there)

/-- A trail that ends in a token after typing leads to the token as it was before. -/
theorem Target.leadsTo (aim : t.Target) (cut : document.chars = t.text)
    (here : document.offsetAt p = t.start + t.left.length) (laminar : parent.Laminar)
    (held : parent.child? slot = some aim.token)
    (focus : trail.focus? = some ⟨aim.shown aim.token, [slot]⟩)
    (above : trail.parent? = some ⟨aim.shown parent, slots⟩)
    (kind : aim.fresh.typeName = aim.token.layer.typeName)
    (spelled : spelling? aim.token.layer = (spelling? aim.fresh).map (withoutPlaceholder placeholder)) :
    trail.LeadsTo placeholder (parent.inText document.chars) slot
      (aim.token.inText document.chars) := by
  obtain ⟨same, key⟩ := aim.context_eq document.chars laminar held focus above kind
  refine ⟨⟨_, focus, rfl, aim.typeName_shown_token kind _, ?_⟩, ⟨_, _, focus, above, ?_, ?_⟩, ?_,
    same, key⟩
  · have begins := aim.quiet.positionOf_patched cut here (Nat.le_add_right _ _)
    change (aim.shown aim.token).range.map _ = _
    rw [aim.range_shown, range_inText, aim.placed, Option.map_some, Option.map_some,
      shiftSpan_span aim.quiet]
    exact congrArg some begins.symm
  · change (aim.shown parent).layer.typeName = _
    rw [aim.layer_shown held, layer_inText, Layer.typeName_map, Layer.typeName_map]
  · rw [shown, child?_inText, aim.child?_move held]
    rfl
  · obtain ⟨spelling, respelled⟩ := Option.isSome_iff_exists.mp aim.respelled
    have typed : trail.focus?.bind (fun visit => spelling? visit.layer) = some spelling := by
      rw [focus, Option.bind_some]
      change spelling? (aim.shown aim.token).layer = some spelling
      rw [aim.layer_shown_token, spelling?_map, respelled]
    rw [layer_inText, spelling?_map, spelled, typedText, typed, respelled]
    rfl

end Typing

/-! ## The placeholder -/

section Placeholder
variable {α : Type} {word front back : List Char}

private theorem withoutPlaceholder_typed
    (before : ¬ Settings.usual.placeholder.toList <:+: front)
    (behind : ¬ Settings.usual.placeholder.toList <:+: back) :
    withoutPlaceholder Settings.usual.placeholder
      (String.ofList (front ++ (Settings.usual.placeholder.toList ++ back))) =
        String.ofList (front ++ back) := by
  obtain ⟨tail, spelled, once, -⟩ := placeholder_eq
  rw [spelled] at before behind ⊢
  rw [withoutPlaceholder, String.toList_ofList, spelled, Text.replace_typed once before behind]

private theorem path_of_long (long : 9 < word.length) :
    (pathSpelling? (wordLayer word : Layer α)).isSome = true := by
  have differ (keyword : String) (short : keyword.toList.length ≤ 9) :
      (String.ofList word == keyword) = false := by
    rw [beq_eq_false_iff_ne]
    rintro rfl
    rw [String.toList_ofList] at short
    omega
  simp only [wordLayer, differ "true" (by decide),
    differ "false" (by decide), differ "null" (by decide),
    differ "undefined" (by decide)]
  rfl

end Placeholder

/-! ## Cursors in tokens -/

variable {document : Document} {p : Position} {tree parent node : Node Range}
variable {address : List Slot} {slot : Slot}

/-- The cursor is at a name that a mustache or a subexpression invokes, its ends included. The name
begins with a letter or an at sign. -/
structure AtName (document : Document) (p : Position) (parent : Node Range) (slot : Slot)
    (node : Node Range) : Prop where
  invoked : slot = .callee ∧ (invoked? parent.layer).isSome
  named : ∃ spelling, pathSpelling? node.layer = some spelling ∧
    spelling.toList.head?.any beginsName = true
  inside : ∃ range, node.range = some range ∧ range.contains (document.codepointPosition p)

/-- The cursor is between a backslash and the quote that it escapes, in a string that begins at a
position. -/
def SplitsEscape (document : Document) (start p : Position) : Prop :=
  ∃ opening, Text.positionOf document.starts opening = start ∧
    document.chars[document.offsetAt p - 1]? = some '\\' ∧
    document.chars[document.offsetAt p]? = document.chars[opening]?

/-- The cursor is between the quotes of a string and at no escaped quote. -/
structure InString (document : Document) (p : Position) (node : Node Range) : Prop where
  literal : (stringValue? node.layer).isSome
  inside : ∃ range, node.range = some range ∧ range.start < document.codepointPosition p ∧
    document.codepointPosition p < range.stop ∧ ¬ SplitsEscape document range.start p

private theorem invoked?_map {α β : Type} (f : α → β) (layer : Layer α) :
    invoked? (layer.map f) = (invoked? layer).map f := by
  cases layer <;> rfl

private theorem mem_slots_of_invoked? {α : Type} {layer : Layer α} {callee : α}
    (invoked : invoked? layer = some callee) : (Slot.callee, callee) ∈ layer.slots := by
  cases layer with
  | mustache call trusting | subExpression call =>
    cases invoked
    simp [Layer.slots, Layer.callSlots]
  | _ => cases invoked

/-- Typing the placeholder into a token at some distance from where the token begins. -/
def Typing.atCursor (before token after : List Char) (distance : Nat) : Typing :=
  ⟨before, token.take distance, Settings.usual.placeholder.toList, token.drop distance, after⟩

@[simp] theorem Typing.token_atCursor (before token after : List Char) (distance : Nat) :
    (atCursor before token after distance).token = token := List.take_append_drop _ _

section Names
variable {before word after : List Char} {holder callee : Node Span}

private theorem quiet_of_name (stands : NameStands before word after)
    (begins : word.head?.any beginsName = true) (distance : Nat) :
    (Typing.atCursor before word after distance).Quiet := by
  obtain ⟨tail, spelled, -, long⟩ := placeholder_eq
  have typed : (Typing.atCursor before word after distance).typed = 'G' :: tail := spelled
  refine .of_name ?_ ?_ ?_ ?_ (fun c member => (placeholder_plain c member).1) stands.apart
    stands.ends ?_
  · rwa [Typing.token_atCursor]
  · rw [typed]
    rfl
  · rw [typed, List.length_cons]
    omega
  · rw [Typing.token_atCursor]
    exact stands.named
  · rw [Typing.token_atCursor]
    exact stands.bare

/-- A name at the cursor, typed into. -/
private theorem exists_nameTarget (stands : NameStands before word after)
    (begins : word.head?.any beginsName = true)
    (made : callee = .mk (some ⟨before.length, before.length + word.length⟩) (wordLayer word))
    (path : (pathSpelling? callee.layer).isSome = true)
    (invoked : invoked? holder.layer = some callee) (distance : Nat) :
    ∃ aim : (Typing.atCursor before word after distance).Target, aim.token = callee ∧
      aim.holder = holder ∧ (pathSpelling? aim.fresh).isSome = true ∧
      aim.fresh = wordLayer (Typing.atCursor before word after distance).retyped := by
  have quiet := quiet_of_name stands begins distance
  have named : ∀ c ∈ (Typing.atCursor before word after distance).retyped,
      Input.isPathChar c = true :=
    Typing.named_retyped (by rw [Typing.token_atCursor]; exact stands.named)
      fun c member => (placeholder_plain c member).1
  have long : 9 < (Typing.atCursor before word after distance).retyped.length := by
    obtain ⟨tail, spelled, -, long⟩ := placeholder_eq
    rw [Typing.length_retyped, show Typing.typed _ = _ from spelled, List.length_cons]
    omega
  have same : callee = .mk (some (Typing.atCursor before word after distance).span)
      (wordLayer (Typing.atCursor before word after distance).token) := by
    rw [made, Typing.span, Typing.stop_eq, Typing.token_atCursor]
    rfl
  subst same
  exact ⟨Typing.nameTarget quiet holder invoked path (path_of_long long) named, rfl, rfl,
    path_of_long long, rfl⟩

/-- In the patched text nothing ends where the name begins. -/
private theorem stop_ne_of_name {t : Typing} (aim : t.Target) {spans : Node Span}
    (parsed : parseSpans t.text = .ok spans) (found : spans.at? address = some aim.holder)
    (invoked : invoked? aim.holder.layer = some aim.token) {part : Node Span} {place : Span}
    (holds : (aim.move spans).Holds part) (placed : part.range = some place) :
    place.stop ≠ t.start := by
  have nonempty := aim.quiet.start_lt_stop
  have plain := spelling?_of_child? (child?_eq_some.mpr (mem_slots_of_invoked? invoked))
  have again : invoked? (aim.move aim.holder).layer = some (aim.move aim.token) := by
    rw [Typing.Target.move, Typing.layer_retype plain, invoked?_map, invoked]
    rfl
  have leaf : (aim.move aim.token).children = [] := by
    rw [Node.children, aim.layer_move, children_of_spelling? aim.respelled]
  have here : (aim.move aim.token).range = some ⟨t.start, t.stop + t.typed.length⟩ := by
    rw [Typing.Target.move, Typing.range_retype, aim.placed, Option.map_some,
      Typing.shiftSpan_span aim.quiet]
  exact parseSpans_stop_ne (aim.parseSpans_patched parsed ⟨address, found⟩) (aim.at?_move found)
    again leaf here (by simp only; omega) holds placed

private theorem focusAt_name {spans parent node : Node Span}
    (fresh : ¬ Settings.usual.placeholder.toList <:+: document.chars)
    (parsed : parseSpans document.chars = .ok spans) (found : spans.at? address = some parent)
    (held : parent.child? .callee = some node) (invoked : invoked? parent.layer = some node)
    (stands : NameStands before word after) (source : document.chars = before ++ (word ++ after))
    (made : node = .mk (some ⟨before.length, before.length + word.length⟩) (wordLayer word))
    (path : (pathSpelling? node.layer).isSome = true)
    (begins : word.head?.any beginsName = true) (first : before.length ≤ document.offsetAt p)
    (last : document.offsetAt p ≤ before.length + word.length) :
    ∃ trail, focusAt parse Settings.usual.placeholder document p = .ok (some trail) ∧
      trail.LeadsTo Settings.usual.placeholder (parent.inText document.chars) .callee
        (node.inText document.chars) := by
  obtain ⟨distance, cursor⟩ := Nat.exists_eq_add_of_le first
  obtain ⟨aim, rfl, rfl, named, again⟩ := exists_nameTarget stands begins made path invoked distance
  have cut : document.chars = (Typing.atCursor before word after distance).text := by
    rw [Typing.text, Typing.token_atCursor, source]
    rfl
  have here : document.offsetAt p = (Typing.atCursor before word after distance).start +
      (Typing.atCursor before word after distance).left.length := by
    simp only [Typing.atCursor, Typing.start, List.length_take]
    omega
  have text := cut ▸ parsed
  obtain ⟨outer, placed⟩ := (parseSpans_origin parsed found).placed_of_spelled held aim.spelled
  obtain ⟨trail, above, gives, focus, parent⟩ := aim.focusAt rfl cut here text ⟨address, found⟩ found
    held (by rw [placed]; rfl)
    fun _ _ _ holds partPlaced => stop_ne_of_name aim text found invoked holds partPlaced
  have laminar := (parseSpans_laminar parsed).at? found
  have token : aim.token.layer = wordLayer word := by rw [made]; rfl
  obtain ⟨spelled, -, kind⟩ := spelling?_wordLayer (token ▸ path)
  obtain ⟨respelled, -, freshKind⟩ := spelling?_wordLayer (again ▸ named)
  refine ⟨trail, gives, aim.leadsTo cut here laminar held focus parent ?_ ?_⟩
  · rw [again, token, freshKind, kind]
  · have free (part : List Char) (inside : part <:+: word) :
        ¬ Settings.usual.placeholder.toList <:+: part := by
      intro found
      exact fresh (found.trans (inside.trans ⟨before, after, by rw [source]; simp⟩))
    rw [token, spelled, again, respelled, Option.map_some, Typing.retyped, List.append_assoc]
    have without := withoutPlaceholder_typed (free _ (List.take_prefix distance word).isInfix)
      (free _ (List.drop_suffix distance word).isInfix)
    rw [List.take_append_drop] at without
    exact congrArg some without.symm

end Names

section Strings
variable {before raw value after : List Char} {quote : Char} {distance : Nat}

/-- A string at the cursor, typed into. -/
private theorem exists_stringTarget {node : Node Span}
    (stands : StringStands document.chars node before quote raw value after)
    (apart : ¬ ((raw.take distance).getLast? = some '\\' ∧
      (raw.drop distance).head? = some quote)) (within : distance ≤ raw.length) :
    ∃ (aim : (Typing.atCursor before (quote :: (raw ++ [quote])) after (distance + 1)).Target)
      (front back : List Char), aim.token = node ∧ aim.holder = node ∧ value = front ++ back ∧
        aim.fresh = .stringLiteral
          (String.ofList (front ++ (Settings.usual.placeholder.toList ++ back)))
          (String.ofList (front ++ (Settings.usual.placeholder.toList ++ back))) := by
  obtain ⟨tail, spelled, -, -⟩ := placeholder_eq
  have filled : Settings.usual.placeholder.toList ≠ [] := by simp [spelled]
  have left : (Typing.atCursor before (quote :: (raw ++ [quote])) after (distance + 1)).left =
      quote :: raw.take distance := by
    simp [Typing.atCursor, List.take_append_of_le_length within]
  have retyped : (Typing.atCursor before (quote :: (raw ++ [quote])) after (distance + 1)).retyped =
      quote :: (raw.take distance ++ (Settings.usual.placeholder.toList ++ raw.drop distance) ++
        [quote]) := by
    simp [Typing.retyped, Typing.atCursor, List.take_append_of_le_length within,
      List.drop_append_of_le_length within]
  have quiet := Typing.Quiet.of_string stands.quoted left filled
    fun c member => (placeholder_plain c member).1
  have plain : ∀ c ∈ Settings.usual.placeholder.toList, c ≠ quote ∧ c ≠ '\\' := by
    intro c member
    obtain ⟨-, back, single, double⟩ := placeholder_plain c member
    rcases stands.quoted with rfl | rfl
    · exact ⟨single, back⟩
    · exact ⟨double, back⟩
  have whole : Input.unescape quote (raw.take distance ++ raw.drop distance) = some value := by
    rw [List.take_append_drop, stands.read]
  obtain ⟨front, back, rfl, reread⟩ := Input.unescape_typed plain filled apart whole
  have same : node = .mk (some (Typing.atCursor before (quote :: (raw ++ [quote])) after
      (distance + 1)).span) (.stringLiteral (String.ofList (front ++ back))
        (String.ofList (front ++ back))) := by
    rw [stands.made, Typing.span, Typing.stop_eq, Typing.token_atCursor]
    simp [Typing.atCursor, Typing.start]
  subst same
  exact ⟨Typing.stringTarget quiet stands.quoted (Typing.token_atCursor ..) retyped stands.read reread,
    front, back, rfl, rfl, rfl, rfl⟩

private theorem focusAt_string {spans parent node : Node Span}
    (fresh : ¬ Settings.usual.placeholder.toList <:+: document.chars)
    (parsed : parseSpans document.chars = .ok spans) (found : spans.at? address = some parent)
    (held : parent.child? slot = some node)
    (stands : StringStands document.chars node before quote raw value after)
    (apart : ¬ ((raw.take distance).getLast? = some '\\' ∧ (raw.drop distance).head? = some quote))
    (within : distance ≤ raw.length) (cursor : document.offsetAt p = before.length + 1 + distance) :
    ∃ trail, focusAt parse Settings.usual.placeholder document p = .ok (some trail) ∧
      trail.LeadsTo Settings.usual.placeholder (parent.inText document.chars) slot
        (node.inText document.chars) := by
  obtain ⟨aim, front, back, token, holder, split, again⟩ := exists_stringTarget stands apart within
  subst token
  have cut : document.chars =
      (Typing.atCursor before (quote :: (raw ++ [quote])) after (distance + 1)).text := by
    rw [Typing.text, Typing.token_atCursor, stands.source]
    simp [Typing.atCursor]
  have here : document.offsetAt p =
      (Typing.atCursor before (quote :: (raw ++ [quote])) after (distance + 1)).start +
        (Typing.atCursor before (quote :: (raw ++ [quote])) after (distance + 1)).left.length := by
    simp only [Typing.atCursor, Typing.start, List.take_succ_cons, List.length_cons,
      List.length_take, List.length_append, List.length_nil]
    omega
  have text := cut ▸ parsed
  have holds : spans.Holds aim.token := Holds.trans ⟨address, found⟩
    (holds_iff.mpr (.inr ⟨_, mem_children_of_child? held, .self _⟩))
  obtain ⟨outer, placed⟩ := (parseSpans_origin parsed found).placed_of_spelled held aim.spelled
  obtain ⟨trail, above, gives, focus, parent⟩ := aim.focusAt rfl cut here text (by rwa [holder]) found
    held (by rw [placed]; rfl) fun empty => by simp [Typing.atCursor] at empty
  have laminar := (parseSpans_laminar parsed).at? found
  have literal : aim.token.layer = .stringLiteral (String.ofList value) (String.ofList value) := by
    rw [stands.made]
    rfl
  refine ⟨trail, gives, aim.leadsTo cut here laminar held focus parent ?_ ?_⟩
  · rw [again, literal]
    rfl
  · have plain : quote ∉ Settings.usual.placeholder.toList := by
      intro member
      obtain ⟨-, -, single, double⟩ := placeholder_plain quote member
      exact stands.quoted.elim single double
    have free (part : List Char) (inside : part <:+: value) :
        ¬ Settings.usual.placeholder.toList <:+: part := by
      intro found
      have raw_ := Input.infix_of_unescape plain stands.read (found.trans inside)
      exact fresh (raw_.trans ⟨before ++ [quote], [quote] ++ after, by rw [stands.source]; simp⟩)
    have without := withoutPlaceholder_typed (free front ⟨[], back, by rw [split]; simp⟩)
      (free back ⟨front, [], by rw [split]; simp⟩)
    rw [literal, again, split]
    exact congrArg some without.symm

/-- A string that is cut between a backslash and its quote has them on both sides of the cursor. -/
private theorem escape_of_split {node : Node Span} {offset : Nat}
    (stands : StringStands document.chars node before quote raw value after)
    (back : (raw.take distance).getLast? = some '\\') (escaped : (raw.drop distance).head? = some quote)
    (cursor : offset = before.length + 1 + distance) :
    document.chars[offset - 1]? = some '\\' ∧
      document.chars[offset]? = document.chars[before.length]? := by
  obtain ⟨front, first⟩ := List.getLast?_eq_some_iff.mp back
  obtain ⟨rest, second⟩ := List.head?_eq_some_iff.mp escaped
  have length := congrArg List.length first
  simp only [List.length_take, List.length_append, List.length_singleton] at length
  have within : distance ≤ raw.length := by
    by_contra beyond
    rw [List.drop_of_length_le (by omega)] at second
    cases second
  obtain rfl : distance = front.length + 1 := by omega
  have source : document.chars =
      (before ++ quote :: front) ++ '\\' :: quote :: (rest ++ [quote] ++ after) := by
    rw [stands.source, ← List.take_append_drop (front.length + 1) raw, first, second]
    simp
  have place : (before ++ quote :: front).length = before.length + 1 + front.length := by
    simp only [List.length_append, List.length_cons]
    omega
  have behind : offset - (before ++ quote :: front).length = 1 := by omega
  refine ⟨?_, ?_⟩
  · rw [source, show offset - 1 = (before ++ quote :: front).length by omega]
    simp
  · rw [source, List.getElem?_append_right (by omega), behind, List.append_assoc]
    simp

end Strings

/-- Wherever in a name or in a string the cursor is, the focus of the patched text is that token, held
as before, and the same has been typed of it. -/
theorem focusAt_token (fresh : ¬ Settings.usual.placeholder.toList <:+: document.chars)
    (parsed : parse (String.ofList document.chars) = .ok tree)
    (found : tree.at? address = some parent) (held : parent.child? slot = some node)
    (cursor : AtName document p parent slot node ∨ InString document p node) :
    ∃ trail, focusAt parse Settings.usual.placeholder document p = .ok (some trail) ∧
      trail.LeadsTo Settings.usual.placeholder parent slot node := by
  obtain ⟨spans, read, rfl⟩ := parse_ofList.mp parsed
  rw [inText, at?_mapRange, Option.map_eq_some_iff] at found
  obtain ⟨parent, found, rfl⟩ := found
  rw [child?_mapRange, Option.map_eq_some_iff] at held
  obtain ⟨node, held, rfl⟩ := held
  have ordered := Text.positionOf_strictMono document.chars
  rcases cursor with cursor | cursor
  · obtain ⟨⟨rfl, invoked⟩, ⟨spelling, named, begins⟩, range, here, inside⟩ := cursor
    rw [layer_mapRange, invoked?_map, Option.isSome_map] at invoked
    obtain ⟨callee, invoked⟩ := Option.isSome_iff_exists.mp invoked
    cases held.symm.trans (child?_eq_some.mpr (mem_slots_of_invoked? invoked))
    rw [layer_mapRange, pathSpelling?_map] at named
    obtain ⟨before, word, after, source, stands, made⟩ :=
      (parseSpans_origin read found).name invoked (by rw [named]; rfl)
    have spelled : spelling.toList = word := by
      have layer : node.layer = wordLayer word := by rw [made]; rfl
      rw [layer] at named
      rw [(spelling?_wordLayer (by rw [named]; rfl)).2.1, Option.some.injEq] at named
      rw [← named, String.toList_ofList]
    have path : (pathSpelling? node.layer).isSome = true := by rw [named]; rfl
    rw [range_mapRange, made] at here
    cases here
    rw [Range.contains_iff] at inside
    exact focusAt_name fresh read found held invoked stands source made path (spelled ▸ begins)
      (ordered.le_iff_le.mp inside.1) (ordered.le_iff_le.mp inside.2)
  · obtain ⟨literal, range, here, first, last, apart⟩ := cursor
    rw [layer_mapRange, stringValue?_map] at literal
    have origin := parseSpans_origin read (show spans.at? (address ++ [slot]) = some node by
      rw [at?_append, found, Option.bind_some, at?_cons, held]
      rfl)
    obtain ⟨before, quote, raw, value, after, stands⟩ := origin.string literal
    rw [range_mapRange, stands.made] at here
    cases here
    have low := ordered.lt_iff_lt.mp first
    have high := ordered.lt_iff_lt.mp last
    simp only at low high
    obtain ⟨distance, cursor⟩ := Nat.exists_eq_add_of_le (Nat.succ_le_of_lt low)
    have within : distance ≤ raw.length := by omega
    refine focusAt_string fresh read found held stands ?_ within cursor
    -- A backslash before the quote at the cursor would be one that escapes it.
    rintro ⟨back, escaped⟩
    exact apart ⟨before.length, rfl, escape_of_split stands back escaped cursor⟩

theorem focusAt_token_in_mustache : ∃ tree parent node,
    parse "{{foo}}" = .ok tree ∧ tree.at? [.body 0] = some parent ∧
      parent.child? .callee = some node ∧ AtName ⟨"", "{{foo}}".toList, 0⟩ ⟨0, 3⟩ parent .callee node ∧
      ∃ trail, focusAt parse Settings.usual.placeholder ⟨"", "{{foo}}".toList, 0⟩ ⟨0, 3⟩ =
          .ok (some trail) ∧ trail.LeadsTo Settings.usual.placeholder parent .callee node := by
  have read : ((parse "{{foo}}").toOption.bind fun tree => (tree.at? [.body 0]).bind fun parent =>
      (parent.child? .callee).map fun node =>
        ((invoked? parent.layer).isSome, pathSpelling? node.layer, node.range)) =
      some (true, some "foo", some ⟨⟨0, 2⟩, ⟨0, 5⟩⟩) := by decide +kernel
  simp only [Option.bind_eq_some_iff, Option.map_eq_some_iff, Prod.mk.injEq] at read
  obtain ⟨tree, parsed, parent, found, node, held, invoked, spelled, placed⟩ := read
  have parsed : parse "{{foo}}" = .ok tree := by
    cases given : parse "{{foo}}" <;> rw [given] at parsed <;> cases parsed
    rfl
  have cursor : AtName ⟨"", "{{foo}}".toList, 0⟩ ⟨0, 3⟩ parent .callee node :=
    ⟨⟨rfl, invoked⟩, ⟨_, spelled, by decide⟩, _, placed, by decide⟩
  exact ⟨tree, parent, node, parsed, found, held, cursor,
    focusAt_token (by decide +kernel) parsed found held (.inl cursor)⟩

end EmberAssist.Template
