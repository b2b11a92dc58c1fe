import EmberAssist.Proofs.Cursor
import EmberAssist.Proofs.Template.Patching
import EmberAssist.Proofs.Template.Resolution
import EmberAssist.Proofs.Template.TokenSource

/-! The focus of a template while a token is typed. The trail to the cursor in the patched text ends
in the token, below what holds the token. -/
namespace EmberAssist.Template

open Node

/-! ## Trails to leaves -/

section Trails
variable {tree parent leaf : Node Range} {address : List Slot} {slot : Slot} {p : Position}

private theorem along_leaf (slots : List Slot) (placed : parent.range.isSome)
    (leafPlaced : leaf.range.isSome)
    (found : tree.at? address = some parent) (held : parent.child? slot = some leaf) :
    ∃ visits above, tree.along slots (address ++ [slot]) =
      visits ++ [⟨parent, above⟩, ⟨leaf, [slot]⟩] := by
  induction address generalizing tree slots with
  | nil =>
    cases found
    refine ⟨[], slots, ?_⟩
    simp [along, held, visitOf, slotsBelow, placed, leafPlaced]
  | cons first address ih =>
    rw [at?_cons, Option.bind_eq_some_iff] at found
    obtain ⟨child, there, found⟩ := found
    obtain ⟨visits, above, same⟩ := ih (tree.slotsBelow first) found
    refine ⟨tree.visitOf slots ++ visits, above, ?_⟩
    rw [List.cons_append, along, there, Option.map_some, Option.getD_some, same, List.append_assoc]

private theorem eq_of_prefix_leaf {searched : List Slot} (leaf_ : leaf.children = [])
    (found : tree.at? address = some leaf) (reached : (tree.at? searched).isSome)
    (through : address <+: searched) : searched = address := by
  obtain ⟨rest, rfl⟩ := through
  cases rest with
  | nil => simp
  | cons slot rest =>
    rw [at?_append, found, Option.bind_some, at?_cons] at reached
    obtain ⟨part, below⟩ := Option.isSome_iff_exists.mp reached
    obtain ⟨child, held, -⟩ := Option.bind_eq_some_iff.mp below
    have member := mem_children_of_child? held
    rw [leaf_] at member
    cases member

/-- The trail to a position at which a leaf is found ends in the leaf, below what holds it. -/
theorem exists_trail (laminar : tree.Laminar) (meets : Meets p tree (address ++ [slot]))
    (found : tree.at? address = some parent) (held : parent.child? slot = some leaf)
    (leaf_ : leaf.children = []) (placed : parent.range.isSome) (leafPlaced : leaf.range.isSome) :
    ∃ trail above, tree.trailTo? p = some trail ∧ trail.focus? = some ⟨leaf, [slot]⟩ ∧
      trail.parent? = some ⟨parent, above⟩ := by
  obtain ⟨searched, reached, alike, through⟩ := exists_searched p [] laminar
  obtain ⟨filled, onward⟩ := through _ meets
  have target : tree.at? (address ++ [slot]) = some leaf := by
    rw [at?_append, found, Option.bind_some, at?_cons, held]
    rfl
  obtain rfl := eq_of_prefix_leaf leaf_ target reached onward
  obtain ⟨visits, above, same⟩ := along_leaf [] placed leafPlaced found held
  have trail := (alike filled).trans same
  refine ⟨⟨visits ++ [⟨parent, above⟩, ⟨leaf, [slot]⟩], (visits.length + 1 : Nat)⟩, above, ?_, ?_, ?_⟩
  · rw [trailTo?, trail, Trail.ofVisits?]
    simp
    omega
  · rw [Trail.focus?, Text.item?_natCast]
    simp
  · have inside : ((visits.length + 1 : Nat) : Int) - 1 = (visits.length : Nat) := by omega
    rw [Trail.parent?, if_neg (by simp only; omega), inside, Text.item?_natCast]
    simp

end Trails

/-! ## Typing at a cursor -/

theorem insertPlaceholder_append (front typed back : List Char) :
    insertPlaceholder (front ++ back) front.length typed = front ++ typed ++ back := by
  have cut : Text.cutPoint (front ++ back).length front.length = front.length := by
    rw [Text.cutPoint_natCast, List.length_append]
    omega
  rw [insertPlaceholder, Text.takeTo, Text.dropTo, cut, List.take_left, List.drop_left]

/-- A tree of a text with the positions that its offsets have there. -/
def Node.inText (chars : List Char) : Node Span → Node Range :=
  mapRange (Text.rangeOf (Text.lineStarts chars))

section InText
variable (chars : List Char) (node : Node Span)

theorem Node.range_inText : (node.inText chars).range =
    node.range.map (Text.rangeOf (Text.lineStarts chars)) := range_mapRange _ _

theorem Node.layer_inText : (node.inText chars).layer = node.layer.map (inText chars) :=
  layer_mapRange _ _

theorem Node.child?_inText (slot : Slot) : (node.inText chars).child? slot =
    (node.child? slot).map (inText chars) := child?_mapRange _ _ _

theorem Node.at?_inText (address : List Slot) : (node.inText chars).at? address =
    (node.at? address).map (inText chars) := at?_mapRange _ _ _

end InText

theorem parse_ofList {chars : List Char} {tree : Node Range} :
    parse (String.ofList chars) = .ok tree ↔
      ∃ spans, parseSpans chars = .ok spans ∧ tree = spans.inText chars := by
  constructor
  · intro parsed
    obtain ⟨spans, read, placed⟩ := parse_eq_ok parsed
    rw [String.toList_ofList] at read placed
    exact ⟨spans, read, placed⟩
  · rintro ⟨spans, parsed, rfl⟩
    simp only [parse, String.toList_ofList, parsed]
    rfl

/-- The focus is looked up in the tree of the text with the placeholder in it. -/
theorem focusAt_eq_ok {read : Reader} {document : Document} {p : Position} {placeholder : String}
    {focus : Option (Trail (Node Range))} : focusAt read placeholder document p = .ok focus ↔
      ∃ tree, read (String.ofList (insertPlaceholder document.chars (document.offsetAt p)
        placeholder.toList)) = .ok tree ∧ tree.trailTo? (document.codepointPosition p) = focus := by
  rw [focusAt]
  constructor
  · intro gives
    cases parsed : read (String.ofList (insertPlaceholder document.chars (document.offsetAt p)
        placeholder.toList)) with
    | error error =>
      rw [parsed] at gives
      cases gives
    | ok tree =>
      rw [parsed] at gives
      cases gives
      exact ⟨tree, rfl, rfl⟩
  · rintro ⟨tree, parsed, rfl⟩
    rw [parsed]
    rfl

namespace Typing

variable {t : Typing} {document : Document} {p : Position} {placeholder : String}
variable {spans parent : Node Span} {address : List Slot} {slot : Slot}

/-- The cursor keeps its position when something is typed at it, and so does all that is before. -/
theorem Quiet.positionOf_patched (quiet : t.Quiet) (cut : document.chars = t.text)
    (here : document.offsetAt p = t.start + t.left.length) {offset : Nat}
    (order : offset ≤ t.start + t.left.length) :
    Text.positionOf document.starts offset = Text.positionOf (Text.lineStarts t.patched) offset := by
  have whole := document.offsetAt_whole p
  have length : t.start + t.left.length = (t.before ++ t.left).length := by simp [start]
  have text : t.text = (t.before ++ t.left) ++ (t.right ++ t.after) := by
    simp [Typing.text, Typing.token]
  obtain ⟨c, rest, typed⟩ := quiet.typed
  have patched : t.patched = (t.before ++ t.left) ++ (c :: rest ++ (t.right ++ t.after)) := by
    simp [Typing.patched, Typing.retyped, typed]
  have plain : c ≠ '\n' := by
    rintro rfl
    exact absurd (quiet.plain '\n' (by simp [typed])) (by decide)
  rw [cut, here, length, text, List.take_left, List.drop_left] at whole
  rw [Document.starts, cut, text, patched, Text.positionOf_typed whole plain (length ▸ order)]

theorem insertPlaceholder_text (cut : document.chars = t.text)
    (here : document.offsetAt p = t.start + t.left.length) :
    insertPlaceholder document.chars (document.offsetAt p) t.typed = t.patched := by
  have text : t.text = (t.before ++ t.left) ++ (t.right ++ t.after) := by
    simp [Typing.text, Typing.token]
  have length : t.start + t.left.length = (t.before ++ t.left).length := by simp [start]
  rw [cut, here, text, length, insertPlaceholder_append]
  simp [patched, retyped]

/-- A tree after typing, with the positions of the patched text. -/
def Target.shown (aim : t.Target) (node : Node Span) : Node Range := (aim.move node).inText t.patched

theorem Target.range_shown (aim : t.Target) (node : Node Span) :
    (aim.shown node).range = (node.range.map t.shiftSpan).map
      (Text.rangeOf (Text.lineStarts t.patched)) := by
  rw [shown, range_inText, move, range_retype]

/-- The cursor is at the token in the patched text. -/
private theorem Target.meets (aim : t.Target) (cut : document.chars = t.text)
    (here : document.offsetAt p = t.start + t.left.length) {target : List Slot}
    (found : spans.at? target = some aim.token)
    (free : t.left = [] → ∀ part place, (aim.move spans).Holds part → part.range = some place →
      place.stop ≠ t.start) :
    Meets (document.codepointPosition p) (aim.shown spans) target := by
  have ordered := Text.positionOf_strictMono t.patched
  have nonempty := aim.quiet.start_lt_stop
  obtain ⟨c, rest, typed⟩ := aim.quiet.typed
  have room : t.left.length ≤ t.token.length := by simp [Typing.token]
  have cursor : document.codepointPosition p =
      Text.positionOf (Text.lineStarts t.patched) (t.start + t.left.length) := by
    rw [Document.codepointPosition, here, aim.quiet.positionOf_patched cut here (le_refl _)]
  have there : (aim.shown spans).at? target = some (aim.shown aim.token) := by
    rw [shown, at?_inText, aim.at?_move found]
    rfl
  have placed : (aim.shown aim.token).range =
      some (Text.rangeOf (Text.lineStarts t.patched) ⟨t.start, t.stop + t.typed.length⟩) := by
    rw [aim.range_shown, aim.placed, Option.map_some, Option.map_some, shiftSpan_span aim.quiet]
  refine ⟨there, placed, ?_, ?_, ?_⟩
  · rw [cursor]
    exact ordered.monotone (Nat.le_add_right _ _)
  · rw [cursor]
    refine ordered ?_
    simp only [stop_eq, typed, List.length_cons]
    omega
  · rintro begins part place ⟨address, reached⟩ partPlaced ends
    rw [cursor] at begins ends
    have first : t.start + t.left.length = t.start := ordered.injective begins
    rw [shown, at?_inText, Option.map_eq_some_iff] at reached
    obtain ⟨part, reached, rfl⟩ := reached
    rw [range_inText, Option.map_eq_some_iff] at partPlaced
    obtain ⟨place, partPlaced, rfl⟩ := partPlaced
    have same : place.stop = t.start + t.left.length := ordered.injective ends
    exact free (List.eq_nil_of_length_eq_zero (by omega)) part place ⟨address, reached⟩ partPlaced
      (same.trans first)

theorem Target.layer_move (aim : t.Target) : (aim.move aim.token).layer = aim.fresh := by
  have placed := aim.placed
  have spelled := aim.spelled
  cases token : aim.token with
  | mk place layer =>
    rw [token] at placed spelled
    rw [move, retype_mk]
    exact if_pos ⟨placed, by rwa [spelling?_map]⟩

/-- After typing, the trail to the cursor ends in the token, below what holds the token. -/
theorem Target.focusAt (aim : t.Target) (typed : placeholder.toList = t.typed)
    (cut : document.chars = t.text) (here : document.offsetAt p = t.start + t.left.length)
    (parsed : parseSpans t.text = .ok spans) (holds : spans.Holds aim.holder)
    (found : spans.at? address = some parent) (held : parent.child? slot = some aim.token)
    (placed : parent.range.isSome)
    (free : t.left = [] → ∀ part place, (aim.move spans).Holds part → part.range = some place →
      place.stop ≠ t.start) :
    ∃ trail above, Template.focusAt parse placeholder document p = .ok (some trail) ∧
      trail.focus? = some ⟨aim.shown aim.token, [slot]⟩ ∧
      trail.parent? = some ⟨aim.shown parent, above⟩ := by
  have read : parse (String.ofList t.patched) = .ok (aim.shown spans) :=
    parse_ofList.mpr ⟨_, aim.parseSpans_patched parsed holds, rfl⟩
  have target : spans.at? (address ++ [slot]) = some aim.token := by
    rw [at?_append, found, Option.bind_some, at?_cons, held]
    rfl
  have parentFound : (aim.shown spans).at? address = some (aim.shown parent) := by
    rw [shown, at?_inText, aim.at?_move found]
    rfl
  have tokenHeld : (aim.shown parent).child? slot = some (aim.shown aim.token) := by
    rw [shown, child?_inText, aim.child?_move held]
    rfl
  have leaf : (aim.shown aim.token).children = [] := by
    rw [Node.children, shown, layer_inText, Layer.children_map, aim.layer_move,
      children_of_spelling? aim.respelled, List.map_nil]
  have tokenPlaced : (aim.shown aim.token).range.isSome = true := by
    simp [aim.range_shown, aim.placed]
  have parentPlaced : (aim.shown parent).range.isSome = true := by
    simpa [aim.range_shown] using placed
  obtain ⟨trail, above, gives, focus, parent⟩ := exists_trail (parse_laminar read)
    (aim.meets cut here target free) parentFound tokenHeld leaf parentPlaced tokenPlaced
  refine ⟨trail, above, focusAt_eq_ok.mpr ⟨_, ?_, gives⟩, focus, parent⟩
  rw [typed, insertPlaceholder_text cut here, read]

end Typing

end EmberAssist.Template
