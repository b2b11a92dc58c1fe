import Mathlib.Data.List.Chain
import EmberAssist.Proofs.Template.Focusing
import EmberAssist.Proofs.Template.Placeholder

/-! What can be completed at a cursor. The focus of the patched text holds the placeholder, but for a
string that ends at the cursor: a range holds both its ends, and of two brothers that touch the first
is in focus. -/
namespace EmberAssist.Template

open Node

/-! ## The focus of a trail -/

section Trails
variable {tree : Node Range} {address slots : List Slot} {p : Position}
variable {trail : Trail (Node Range)} {visit : Visit (Node Range)}

private theorem head_along (first : (tree.along slots address).head? = some visit) :
    visit = ⟨tree, slots⟩ ∨ visit.slots = [] := by
  induction address generalizing tree slots with
  | nil =>
    cases placed : tree.range with
    | none => simp [along, visitOf, placed] at first
    | some range => exact .inl (by simpa [along, visitOf, placed] using first.symm)
  | cons slot address ih =>
    cases placed : tree.range with
    | some range => exact .inl (by simpa [along, visitOf, placed] using first.symm)
    | none =>
      right
      cases held : tree.child? slot with
      | none => simp [along, visitOf, placed, held] at first
      | some child =>
        simp only [along, visitOf, placed, held, slotsBelow, Option.isSome_none,
          Bool.false_eq_true, ↓reduceIte, List.nil_append, Option.map_some, Option.getD_some] at first
        rcases ih first with rfl | unheld
        · rfl
        · exact unheld

/-- On the way down an address every visit is held by the one before it in the slots that it tells. -/
private theorem isChain_along : (tree.along slots address).IsChain fun above below =>
    ∀ slot ∈ below.slots, above.node.child? slot = some below.node := by
  induction address generalizing tree slots with
  | nil => cases placed : tree.range <;> simp [along, visitOf, placed]
  | cons slot address ih =>
    cases held : tree.child? slot with
    | none => cases placed : tree.range <;> simp [along, visitOf, placed, held]
    | some child =>
      rw [along, held, Option.map_some, Option.getD_some]
      cases placed : tree.range with
      | none => simpa [visitOf, placed] using ih
      | some range =>
        simp only [visitOf, placed, slotsBelow, Option.isSome_some, ↓reduceIte,
          List.cons_append, List.nil_append, List.isChain_cons]
        refine ⟨fun visit first => ?_, ih⟩
        rcases head_along first with rfl | unheld
        · simpa using held
        · simp [unheld]

/-- The visits of a trail to a position are of parts of the tree around it. -/
private theorem exists_of_mem_visitsAt (laminar : tree.Laminar) (member : visit ∈ tree.visitsAt p []) :
    ∃ address range, tree.at? address = some visit.node ∧ visit.node.range = some range ∧
      range.contains p := by
  obtain ⟨addresses, visited, -⟩ := exists_resolved laminar p
  rw [chainTo_eq] at visited
  obtain ⟨range, placed, inside⟩ := contains_of_mem_visitsAt member
  obtain ⟨index, bound, rfl⟩ := List.mem_iff_getElem.mp member
  exact ⟨_, range, visited.get (visited.length_eq ▸ bound) bound, placed, inside⟩

/-- A trail to a position ends in a part of the tree around it, held by the part before it in the
slots that the trail tells. -/
theorem focus_of_trailTo? (laminar : tree.Laminar) (gives : tree.trailTo? p = some trail) :
    ∃ visit address range, trail.focus? = some visit ∧ tree.at? address = some visit.node ∧
      visit.node.range = some range ∧ range.contains p ∧
      ∀ above, trail.parent? = some above → (∃ address, tree.at? address = some above.node) ∧
        ∀ slot ∈ visit.slots, above.node.child? slot = some visit.node := by
  obtain ⟨searched, -, alike, -⟩ := exists_searched p [] laminar
  have around (visit : Visit (Node Range)) (member : visit ∈ tree.visitsAt p []) :=
    exists_of_mem_visitsAt laminar member
  obtain ⟨before, visit, visits, rfl⟩ := exists_visits_of_trailTo? gives
  have chained : (tree.along [] searched).IsChain _ := isChain_along
  rw [← alike (by simp [visits])] at chained
  rw [visits] at around chained
  obtain ⟨address, range, found, placed, inside⟩ := around visit (by simp)
  refine ⟨visit, address, range, ?_, found, placed, inside, fun above parent => ?_⟩
  · rw [Trail.focus?, Text.item?_natCast]
    simp
  · rw [Trail.parent?] at parent
    split at parent
    · cases parent
    · rename_i held
      rcases List.eq_nil_or_concat' before with rfl | ⟨front, other, rfl⟩
      · simp at held
      · have inner : (((front ++ [other]).length : Nat) : Int) - 1 = (front.length : Nat) := by simp
        rw [inner, Text.item?_natCast, List.append_assoc] at parent
        obtain rfl : other = above := by simpa using parent
        obtain ⟨address, -, found, -⟩ := around other (by simp)
        rw [List.append_assoc, List.singleton_append, List.isChain_append_cons_cons] at chained
        exact ⟨⟨address, found⟩, chained.2.1⟩

end Trails

/-- Where something can be completed, a path or a string is in focus. -/
theorem Trail.isSome_spelling_of_offered {α : Type} [NodeLike α] {trail : Trail α}
    (offered : trail.context ≠ .none ∨ trail.isPhraseKey = true) :
    ∃ visit spelling, trail.focus? = some visit ∧ spelling? visit.layer = some spelling := by
  by_contra unspelled
  have nothing {visit : Visit α} (focus : trail.focus? = some visit) :
      pathSpelling? visit.layer = none ∧ stringValue? visit.layer = none := by
    have none_ : ¬ ∃ spelling, spelling? visit.layer = some spelling := fun ⟨spelling, spelled⟩ =>
      unspelled ⟨visit, spelling, focus, spelled⟩
    cases layer : visit.layer <;> simp_all [pathSpelling?, stringValue?, spelling?]
  have path : trail.isAtPath = false := by
    cases focus : trail.focus? <;> simp_all [isAtPath]
  have string : trail.isAtString = false := by
    cases focus : trail.focus? <;> simp_all [isAtString]
  unfold context isPhraseKey isMustachePath isBlockPath isSubExpressionPath isLinkTarget at offered
  rw [path, string] at offered
  cases above : trail.parentLayer? with
  | none => simp [above] at offered
  | some layer => cases layer <;> simp [above] at offered

/-! ## Cursors in patched texts -/

/-- The text of a document, cut where an editor's position is. -/
structure Cut (document : Document) (p : Position) (front back : List Char) : Prop where
  source : document.chars = front ++ back
  here : document.offsetAt p = front.length
  whole : ¬ Text.Joint front back

theorem exists_cut (document : Document) (p : Position) :
    ∃ front back, Cut document p front back :=
  ⟨_, _, (List.take_append_drop _ _).symm,
    (List.length_take_of_le (document.offsetAt_le p)).symm, document.offsetAt_whole p⟩

/-- A node of a tree is around an offset of the text and is shown as some node. -/
structure Around (spans : Node Span) (chars : List Char) (offset : Nat) (shown : Node Range)
    (node : Node Span) : Prop where
  shows : node.inText chars = shown
  found : ∃ address, spans.at? address = some node
  placed : ∃ place, node.range = some place ∧ place.start ≤ offset ∧ offset ≤ place.stop

private theorem Around.mk_of_contains {spans node : Node Span} {chars : List Char} {offset : Nat}
    {shown : Node Range} {range : Range} (shows : node.inText chars = shown)
    (found : ∃ address, spans.at? address = some node) (placed : shown.range = some range)
    (inside : range.contains (Text.positionOf (Text.lineStarts chars) offset)) :
    Around spans chars offset shown node := by
  have ordered := Text.positionOf_strictMono chars
  rw [← shows, range_inText, Option.map_eq_some_iff] at placed
  obtain ⟨place, placed, rfl⟩ := placed
  rw [Range.contains_iff] at inside
  exact ⟨shows, found, place, placed, ordered.le_iff_le.mp inside.1, ordered.le_iff_le.mp inside.2⟩

theorem Around.layer {spans node : Node Span} {chars : List Char} {offset : Nat}
    {shown : Node Range} (around : Around spans chars offset shown node) :
    shown.layer = node.layer.map (inText chars) := by
  rw [← around.shows, layer_inText]

variable {document : Document} {p : Position} {front typed back : List Char}

/-- What is patched at a cursor. -/
theorem Cut.insertPlaceholder (cut : Cut document p front back) (typed : List Char) :
    Template.insertPlaceholder document.chars (document.offsetAt p) typed = front ++ (typed ++ back) := by
  rw [cut.here, cut.source, insertPlaceholder_append, List.append_assoc]

/-- The positions up to a cursor do not change when something is typed there that is no line end. -/
theorem Cut.positionOf_patched (cut : Cut document p front back)
    (plain : ∀ c ∈ typed.head?, c ≠ '\n') {offset : Nat} (order : offset ≤ front.length) :
    Text.positionOf (Text.lineStarts (front ++ (typed ++ back))) offset =
      Text.positionOf document.starts offset := by
  rw [Document.starts, cut.source]
  cases typed with
  | nil => rfl
  | cons c rest => exact (Text.positionOf_typed cut.whole (plain c rfl) order).symm

/-- The cursor keeps its place. -/
theorem Cut.codepointPosition (cut : Cut document p front back) {c : Char} {rest : List Char}
    (spelled : typed = c :: rest) (plain : c ≠ '\n') : document.codepointPosition p =
      Text.positionOf (Text.lineStarts (front ++ (typed ++ back))) front.length := by
  have unended : ∀ d ∈ typed.head?, d ≠ '\n' := by
    rw [spelled]
    rintro d ⟨⟩
    exact plain
  rw [Document.codepointPosition, cut.here, cut.positionOf_patched unended (le_refl _)]

/-- The focus of a patched text is a part of its tree around the cursor, and what is before it on the
trail holds it. -/
theorem Cut.focusAt (cut : Cut document p front back) {placeholder : String} {c : Char}
    {rest : List Char} (typed : placeholder.toList = c :: rest) (plain : c ≠ '\n')
    {trail : Trail (Node Range)}
    (gives : Template.focusAt parse placeholder document p = .ok (some trail)) :
    ∃ spans visit, parseSpans (front ++ (placeholder.toList ++ back)) = .ok spans ∧
      trail.focus? = some visit ∧
      (∃ node, Around spans (front ++ (placeholder.toList ++ back)) front.length visit.node node) ∧
      ∀ above, trail.parent? = some above → ∃ parent, (∃ address, spans.at? address = some parent) ∧
        parent.inText (front ++ (placeholder.toList ++ back)) = above.node ∧
        ∀ slot ∈ visit.slots, ∃ node, parent.child? slot = some node ∧
          Around spans (front ++ (placeholder.toList ++ back)) front.length visit.node node := by
  have cursor := cut.codepointPosition typed plain
  obtain ⟨tree, read, gives⟩ := focusAt_eq_ok.mp gives
  rw [cut.insertPlaceholder] at read
  obtain ⟨spans, parsed, rfl⟩ := parse_ofList.mp read
  obtain ⟨visit, address, range, focus, found, placed, inside, held⟩ :=
    focus_of_trailTo? (parse_laminar read) gives
  rw [cursor] at inside
  refine ⟨spans, visit, parsed, focus, ?_, fun above parent => ?_⟩
  · rw [at?_inText, Option.map_eq_some_iff] at found
    obtain ⟨node, found, shows⟩ := found
    exact ⟨node, .mk_of_contains shows ⟨address, found⟩ placed inside⟩
  · obtain ⟨⟨address, found⟩, held⟩ := held above parent
    rw [at?_inText, Option.map_eq_some_iff] at found
    obtain ⟨outer, found, shows⟩ := found
    refine ⟨outer, ⟨address, found⟩, shows, fun slot member => ?_⟩
    have there := held slot member
    rw [← shows, child?_inText, Option.map_eq_some_iff] at there
    obtain ⟨node, there, same⟩ := there
    refine ⟨node, there, .mk_of_contains same ⟨address ++ [slot], ?_⟩ placed inside⟩
    rw [at?_append, found, Option.bind_some, at?_cons, there]
    rfl

/-! ## What is in focus -/

section Tokens
variable {node : Node Span} {place : Span} {quote : Char}
variable {chars before word raw value after : List Char}

/-- A path around the cursor holds what was typed there. -/
theorem PathStands.holds_typed (stands : PathStands (front ++ (typed ++ back)) node before word after)
    (plain : ∀ c ∈ typed, Input.isPathChar c = true) (placed : node.range = some place)
    (first : place.start ≤ front.length) (last : front.length ≤ place.stop) :
    ∃ early late, word = early ++ (typed ++ late) ∧ front = before ++ early := by
  rw [stands.made] at placed
  cases placed
  refine Text.exists_of_cut stands.source first last fun c head member => ?_
  have outside := stands.ends c head
  rw [plain c member] at outside
  cases outside

/-- What is typed at a cursor quotes and escapes nothing. -/
private theorem StringStands.unquoted (stands : StringStands chars node before quote raw value after)
    (plain : ∀ c ∈ typed, c ≠ '\\' ∧ c ≠ '\'' ∧ c ≠ '"') : ∀ c ∈ typed, c ≠ quote ∧ c ≠ '\\' := by
  intro c member
  obtain ⟨solid, single, double⟩ := plain c member
  rcases stands.quoted with rfl | rfl
  · exact ⟨single, solid⟩
  · exact ⟨double, solid⟩

/-- A string around the cursor begins before the cursor, as nothing that is typed there is a quote. -/
theorem StringStands.begins_before
    (stands : StringStands (front ++ (typed ++ back)) node before quote raw value after)
    (plain : ∀ c ∈ typed, c ≠ '\\' ∧ c ≠ '\'' ∧ c ≠ '"') (filled : typed ≠ [])
    (placed : node.range = some place) (first : place.start ≤ front.length) :
    ∃ early, front = before ++ quote :: early := by
  rw [stands.made] at placed
  cases placed
  have source := stands.source
  obtain ⟨early, rfl⟩ : before <+: front :=
    List.prefix_of_prefix_length_le ⟨_, source.symm⟩ (List.prefix_append _ _) first
  rw [List.append_assoc, List.append_cancel_left_eq] at source
  cases early with
  | nil =>
    obtain ⟨c, others, rfl⟩ := List.exists_cons_of_ne_nil filled
    exact absurd (List.cons.inj source).1 (stands.unquoted plain c List.mem_cons_self).1
  | cons c early =>
    obtain ⟨rfl, -⟩ := List.cons.inj source
    exact ⟨early, rfl⟩

/-- A string around the cursor holds what was typed there or ends there. -/
theorem StringStands.holds_typed
    (stands : StringStands (front ++ (typed ++ back)) node before quote raw value after)
    (plain : ∀ c ∈ typed, c ≠ '\\' ∧ c ≠ '\'' ∧ c ≠ '"') (filled : typed ≠ [])
    (placed : node.range = some place) (first : place.start ≤ front.length)
    (last : front.length ≤ place.stop) : typed <:+: value ∨ place.stop = front.length := by
  obtain ⟨opened, begins⟩ := stands.begins_before plain filled placed first
  have begun : before.length + 1 ≤ front.length := by
    rw [begins, List.length_append, List.length_cons]
    omega
  rw [stands.made] at placed
  cases placed
  by_cases ends : before.length + (raw.length + 2) = front.length
  · exact .inr ends
  left
  have inside : front ++ (typed ++ back) = (before ++ [quote]) ++ (raw ++ ([quote] ++ after)) := by
    rw [stands.source]
    simp
  simp only at last
  have unquoted := stands.unquoted plain
  obtain ⟨early, late, rfl, -⟩ := Text.exists_of_cut inside
    (by rwa [List.length_append, List.length_singleton])
    (by simp only [List.length_append, List.length_singleton]; omega)
    (by rintro c ⟨⟩ member; exact (unquoted _ member).1 rfl)
  exact Input.infix_of_read unquoted filled stands.read

end Tokens

/-- Where something can be completed, the focus is a path or a string that holds the placeholder, or
it is a string that ends at the cursor. -/
theorem focusAt_offered {trail : Trail (Node Range)}
    (gives : focusAt parse Settings.usual.placeholder document p = .ok (some trail))
    (offered : trail.context ≠ .none ∨ trail.isPhraseKey = true) :
    ∃ visit spelling, trail.focus? = some visit ∧ spelling? visit.layer = some spelling ∧
      (Settings.usual.placeholder.toList <:+: spelling.toList ∨
        stringValue? visit.layer = some spelling ∧ ∃ range, visit.node.range = some range ∧
          range.stop = document.codepointPosition p) := by
  obtain ⟨front, back, cut⟩ := exists_cut document p
  obtain ⟨tail, typed, -⟩ := placeholder_eq
  obtain ⟨spans, visit, parsed, focus, ⟨node, around⟩, -⟩ := cut.focusAt typed (by decide) gives
  obtain ⟨other, spelling, same, spelled⟩ := Trail.isSome_spelling_of_offered offered
  cases focus.symm.trans same
  have layer : visit.layer = node.layer.map (inText _) := around.layer
  obtain ⟨shows, ⟨address, found⟩, place, placed, first, last⟩ := around
  refine ⟨visit, spelling, focus, spelled, ?_⟩
  rw [layer, spelling?_map] at spelled
  rw [layer, stringValue?_map]
  have origin := parseSpans_origin parsed found
  by_cases path : (pathSpelling? node.layer).isSome = true
  · left
    obtain ⟨before, word, after, stands⟩ := origin.path path
    obtain ⟨early, late, rfl, -⟩ :=
      stands.holds_typed (fun c member => (placeholder_plain c member).1) placed first last
    rw [stands.layer] at path spelled
    rw [(spelling?_wordLayer path).1, Option.some.injEq] at spelled
    rw [← spelled, String.toList_ofList]
    exact ⟨early, late, by simp⟩
  · have string : (stringValue? node.layer).isSome = true := by
      cases layer : node.layer <;> simp_all [spelling?, pathSpelling?, stringValue?]
    obtain ⟨before, quote, raw, value, after, stands⟩ := origin.string string
    have literal : node.layer = .stringLiteral (String.ofList value) (String.ofList value) := by
      rw [stands.made]
      rfl
    rw [literal] at spelled ⊢
    cases spelled
    refine (stands.holds_typed (fun c member => (placeholder_plain c member).2) (by simp [typed])
      placed first last).imp (fun inside => by rwa [String.toList_ofList]) fun ends => ?_
    refine ⟨rfl, _, by rw [← shows, range_inText, placed]; rfl, ?_⟩
    rw [cut.codepointPosition typed (by decide)]
    exact congrArg (Text.positionOf _) ends

/-- What is told of the focus in a document, by a fold of the tree of the patched text. -/
private theorem exists_trail_of_told {β : Type} (document : Document) (p : Position)
    (patched : String) (cursor : Position) (tell : Trail (Node Range) → β) (told : β)
    (typed : insertPlaceholder document.chars (document.offsetAt p)
      Settings.usual.placeholder.toList = patched.toList)
    (here : document.codepointPosition p = cursor)
    (same : ((parse patched).toOption.bind fun tree =>
      (Trail.ofVisits? ((tree.fold (searchLayer cursor)).2 [])).map tell) = some told) :
    ∃ trail, focusAt parse Settings.usual.placeholder document p = .ok (some trail) ∧
      tell trail = told := by
  obtain ⟨tree, read, same⟩ := Option.bind_eq_some_iff.mp same
  obtain ⟨trail, gives, same⟩ := Option.map_eq_some_iff.mp same
  refine ⟨trail, focusAt_eq_ok.mpr ⟨tree, ?_, ?_⟩, same⟩
  · rw [typed, String.ofList_toList]
    cases parsed : parse patched <;> rw [parsed] at read <;> cases read
    rfl
  · rwa [here, trailTo?_eq_fold]

theorem focusAt_offered_in_name : ∃ trail,
    focusAt parse Settings.usual.placeholder ⟨"", "{{foo}}".toList, 0⟩ ⟨0, 3⟩ = .ok (some trail) ∧
      (trail.context ≠ .none ∨ trail.isPhraseKey = true) ∧ ∃ visit spelling,
        trail.focus? = some visit ∧ spelling? visit.layer = some spelling ∧
          (Settings.usual.placeholder.toList <:+: spelling.toList ∨
            stringValue? visit.layer = some spelling ∧ ∃ range, visit.node.range = some range ∧
              range.stop = Document.codepointPosition ⟨"", "{{foo}}".toList, 0⟩ ⟨0, 3⟩) := by
  obtain ⟨trail, gives, told⟩ := exists_trail_of_told ⟨"", "{{foo}}".toList, 0⟩ ⟨0, 3⟩
    "{{fGlimmerCompletionDummyoo}}" ⟨0, 3⟩ Trail.context .mustache
    (by decide +kernel) (by decide +kernel) (by decide +kernel)
  have offered : trail.context ≠ .none ∨ trail.isPhraseKey = true := .inl (by rw [told]; decide)
  exact ⟨trail, gives, offered, focusAt_offered gives offered⟩

/-- Behind the second argument of a link the argument is still in focus. It does not hold what is
typed there. -/
theorem focusAt_offers_before_cursor : ¬ ∀ (document : Document) (p : Position)
    (trail : Trail (Node Range)), ¬ Settings.usual.placeholder.toList <:+: document.chars →
      focusAt parse Settings.usual.placeholder document p = .ok (some trail) →
        trail.context ≠ .none ∨ trail.isPhraseKey = true → ∃ visit spelling,
          trail.focus? = some visit ∧ spelling? visit.layer = some spelling ∧
            Settings.usual.placeholder.toList <:+: spelling.toList := by
  intro always
  obtain ⟨trail, gives, told⟩ := exists_trail_of_told
    ⟨"", "\x7b\x7blink-to \"a\" \"b\"\x7d\x7d".toList, 0⟩ ⟨0, 17⟩
    "\x7b\x7blink-to \"a\" \"b\"GlimmerCompletionDummy\x7d\x7d" ⟨0, 17⟩
    (fun trail => (trail.context, trail.focus?.bind fun visit => spelling? visit.layer))
    (.link, some "b") (by decide +kernel) (by decide +kernel) (by decide +kernel)
  obtain ⟨link, typed⟩ := Prod.mk.inj told
  obtain ⟨visit, spelling, focus, spelled, holds⟩ := always _ _ trail (by decide +kernel) gives
    (.inl (by rw [link]; decide))
  rw [focus, Option.bind_some, spelled] at typed
  cases typed
  exact absurd holds (by decide +kernel)

end EmberAssist.Template
