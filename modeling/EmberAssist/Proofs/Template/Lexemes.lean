import Mathlib.Data.List.TakeWhile
import EmberAssist.Proofs.Template.Lockstep

/-! Literals, names and tags around a token that is typed into. Whatever is read without the token is
read again, and where nothing could be read the longer token does not help. -/
namespace EmberAssist.Template.Typing

open Text

variable {t : Typing} {input moved behind closed next : Input} {p : Char → Bool}
variable {pattern chars : List Char}

namespace Carried

theorem at_start (quiet : t.Quiet) (carried : t.Carried input moved)
    (arrived : input.offset = t.start) : input = ⟨t.start, t.token ++ t.after⟩ ∧
      moved = ⟨t.start, t.retyped ++ t.after⟩ := by
  have nonempty := quiet.start_lt_stop
  cases carried with
  | behind past =>
    simp only at arrived
    omega
  | @ahead offset gap before reach =>
    obtain rfl : offset = t.start := arrived
    obtain rfl : gap = [] := List.eq_nil_of_length_eq_zero (by omega)
    exact ⟨rfl, rfl⟩

/-! ## Literals -/

theorem quoteAhead (quiet : t.Quiet) (carried : t.Carried input moved) :
    quoteAhead input = quoteAhead moved := by
  obtain ⟨a, b, rest, others, token, retyped, alike⟩ := quiet.alike
  have unquoted {c : Char} (begins : beginsName c = true) : ¬ (c = '\'' ∨ c = '"') := by
    rintro (rfl | rfl) <;> exact absurd begins (by decide)
  cases carried with
  | behind past => rfl
  | @ahead offset gap before reach =>
    cases gap with
    | cons c gap => rfl
    | nil =>
      simp only [token, retyped, List.nil_append, List.cons_append, Template.quoteAhead]
      cases alike with
      | name first second => rw [if_neg (unquoted first), if_neg (unquoted second)]
      | single quote => rfl
      | hash => rfl

theorem stringTail?_some {quote : Char} (quiet : t.Quiet) (carried : t.Carried input moved)
    (quoted : Template.quoteAhead input = some quote)
    (read : Input.stringTail? quote (input.offset + 1) (input.rest.drop 1) = some (chars, behind))
    (clear : t.Clear input behind) :
    ∃ reached, Input.stringTail? quote (moved.offset + 1) (moved.rest.drop 1) =
      some (chars, reached) ∧ t.Carried behind reached := by
  obtain ⟨offset, rest⟩ := input
  obtain ⟨others, rfl, single⟩ := quoteAhead_eq_some.mp quoted
  have plain : quote ≠ '\\' := by rcases single with rfl | rfl <;> decide
  have order := Input.le_of_stringTail? read
  obtain ⟨later, split, further⟩ := carried.step (clear.ne_start quiet (Input.offset_le order))
  obtain ⟨taken, reached, last, rest, movedRest, place, movedPlace⟩ :=
    further.split quiet order clear.tail
  obtain ⟨raw, spelled, offset, value⟩ := (Input.stringTail?_eq_some plain).mp read
  obtain rfl : taken = raw ++ [quote] := List.append_cancel_right
    (rest.symm.trans (spelled.trans (List.append_cons ..)))
  refine ⟨reached, (Input.stringTail?_eq_some plain).mpr ⟨raw, ?_, ?_, value⟩, last⟩
  · rw [split, List.drop_one, List.tail_cons, List.append_cons]
    exact movedRest
  · rw [movedPlace, List.length_append]
    rfl

/-- A fraction of a number, which no token begins with. -/
private theorem fraction (quiet : t.Quiet) (carried : t.Carried input moved) :
    t.Told input.fraction moved.fraction ∧ t.Clear input input.fraction.2 := by
  unfold Input.fraction
  have pointed := carried.eat? quiet (show Marked ['.'] by decide)
  have digits := rel_bind pointed fun point reached further =>
    further.takeSome? quiet refuses_digit.agrees (further.clear_takeWhile quiet refuses_digit)
  cases taken : (input.eat? ['.']).bind (·.takeSome? isDecimalDigit) with
  | none =>
    rw [none_of_rel digits taken]
    exact ⟨⟨rfl, carried⟩, carried.clear_refl⟩
  | some found =>
    obtain ⟨spelled, behind⟩ := found
    obtain ⟨reached, read, last⟩ := of_rel_told digits taken
    obtain ⟨point, dot, run⟩ := Option.bind_eq_some_iff.mp taken
    obtain ⟨_, -, further⟩ := some_of_rel pointed dot
    have clear := further.clear_takeWhile quiet refuses_digit
    rw [(Input.takeSome?_eq_some.mp run).1] at clear
    rw [read]
    exact ⟨⟨rfl, last⟩, (carried.clear_eat? quiet (by decide) dot).trans quiet clear⟩

theorem number? (quiet : t.Quiet) (carried : t.Carried input moved) :
    Option.Rel t.Told input.number? moved.number? := by
  have signed := carried.skipOptional quiet (show Marked ['-'] by decide)
  have first := carried.clear_skipOptional quiet (c := '-') (by decide)
  have whole := signed.takeSome? quiet refuses_digit.agrees
    (signed.clear_takeWhile quiet refuses_digit)
  unfold Input.number?
  simp only [bind, carried.sees quiet (show Marked ['-'] by decide)]
  cases taken : (input.skipOptional ['-']).takeSome? isDecimalDigit with
  | none =>
    rw [none_of_rel whole taken]
    exact .none
  | some found =>
    obtain ⟨digits, wholeEnd⟩ := found
    obtain ⟨wholeReached, read, further⟩ := of_rel_told whole taken
    rw [read]
    simp only [Option.bind_some]
    obtain ⟨⟨same, last⟩, third⟩ := further.fraction quiet
    have second := signed.clear_takeWhile quiet refuses_digit
    rw [(Input.takeSome?_eq_some.mp taken).1] at second
    have clear := (first.trans quiet second).trans quiet third
    have order := ((Input.le_skipOptional ['-'] input).trans
      (Input.le_of_takeSome? taken)).trans (Input.le_fraction wholeEnd)
    generalize wholeEnd.fraction = found at same last clear order ⊢
    generalize wholeReached.fraction = others at same last ⊢
    obtain ⟨fractional, behind⟩ := found
    obtain ⟨_, reached⟩ := others
    cases same
    simp only at last clear order
    obtain ⟨spelled, again, same, rest, movedRest, place, movedPlace⟩ :=
      carried.split quiet order clear
    obtain rfl := last.unique quiet same
    have old : behind.offset - input.offset = spelled.length := by omega
    have new : reached.offset - moved.offset = spelled.length := by omega
    simp only [last.all_head quiet refuses_endsNumber.agrees, old, new, rest, movedRest,
      List.take_left]
    split
    · exact .some ⟨rfl, last⟩
    · exact .none

/-- What is typed holds no mark that ends names, so the patched text holds no more of them. -/
theorem mem_of_moved {c : Char} (quiet : t.Quiet) (carried : t.Carried input moved)
    (refused : Input.isPathChar c = false) (member : c ∈ moved.rest) : c ∈ input.rest := by
  cases carried with
  | behind past => exact member
  | ahead before reach =>
    have untyped : c ∉ t.typed := fun typed => by
      rw [quiet.plain c typed] at refused
      cases refused
    simpa [retyped, token, untyped] using member

/-! ## Names -/

theorem takeSome?_path (quiet : t.Quiet) (carried : t.Carried input moved)
    (elsewhere : input.offset ≠ t.start) :
    Option.Rel t.Told (input.takeSome? Input.isPathChar) (moved.takeSome? Input.isPathChar) := by
  obtain ⟨rest, offset, all, -⟩ :=
    Input.takeWhile_eq.mp (Eq.refl (input.takeWhile Input.isPathChar))
  exact carried.takeSome? quiet agrees_path
    (carried.clear_of_path quiet elsewhere rest offset all)

theorem argumentName?_some (quiet : t.Quiet) (carried : t.Carried input moved)
    (read : input.argumentName? = some (chars, behind)) (clear : t.Clear input behind) :
    ∃ reached, moved.argumentName? = some (chars, reached) ∧ t.Carried behind reached := by
  simp only [Input.argumentName?, bind, Option.bind_eq_some_iff, pure, Option.some.injEq,
    Prod.mk.injEq, Prod.exists] at read ⊢
  obtain ⟨name, named, taken, equals, read, rfl, rfl⟩ := read
  obtain ⟨reached, again, further⟩ :=
    carried.takeSome?_some quiet agrees_path taken (clear.left (Input.le_of_eat? read))
  obtain ⟨last, found, arrived⟩ := some_of_rel (further.eat? quiet (by decide)) read
  exact ⟨last, ⟨name, reached, again, last, found, rfl, rfl⟩, arrived⟩

theorem argumentName?_none (quiet : t.Quiet) (carried : t.Carried input moved)
    (unread : input.argumentName? = none) : moved.argumentName? = none := by
  by_cases arrived : input.offset = t.start
  · rw [(carried.at_start quiet arrived).2, quiet.unnamed]
  · have named := rel_bind (carried.takeSome?_path quiet arrived) fun found reached told =>
      rel_bind (R := t.Carried) (S := t.Told) (told.2.eat? quiet (show Marked ['='] by decide))
        (f := fun equals => some (found.1, equals)) (g := fun equals => some (reached.1, equals))
        fun _ _ further => .some ⟨told.1, further⟩
    exact none_of_rel named unread

/-! ## Block parameters -/

/-- The bar that opens a list of block parameters is reached at both places or at neither. -/
theorem bar? (quiet : t.Quiet) (carried : t.Carried input moved)
    (elsewhere : input.offset ≠ t.start) : Option.Rel t.Carried input.bar? moved.bar? :=
  rel_bind (carried.eat?_path quiet elsewhere (List.all_eq_true.mp (by decide))) fun _ _ word =>
    rel_bind (word.takeSome? quiet refuses_blank.agrees (word.clear_takeWhile quiet refuses_blank))
      fun _ _ spaced => spaced.2.eat? quiet (by decide)

theorem seesBlockParams (quiet : t.Quiet) (carried : t.Carried input moved) :
    input.seesBlockParams = moved.seesBlockParams := by
  by_cases arrived : input.offset = t.start
  · obtain ⟨old, new⟩ := carried.at_start quiet arrived
    rw [old, new, quiet.bare, quiet.stillBare]
  · rw [Input.seesBlockParams_eq, Input.seesBlockParams_eq,
      isSome_of_rel (carried.bar? quiet arrived)]

theorem seesCallEnd (quiet : t.Quiet) (carried : t.Carried input moved) :
    input.seesCallEnd = moved.seesCallEnd := by
  unfold Input.seesCallEnd
  rw [isSome_of_rel (carried.eatClose? quiet), carried.sees quiet (show Marked [')'] by decide),
    carried.seesBlockParams quiet]

theorem blockParams?_some {names : List String} (quiet : t.Quiet)
    (carried : t.Carried input moved) (read : input.blockParams? = some (names, behind))
    (clear : t.Clear input behind) :
    ∃ reached, moved.blockParams? = some (names, reached) ∧ t.Carried behind reached := by
  rw [Input.blockParams?_eq] at read ⊢
  obtain ⟨opened, opens, closes⟩ := Option.bind_eq_some_iff.mp read
  obtain ⟨closed, bar, same⟩ := Option.map_eq_some_iff.mp closes
  obtain ⟨rfl, rfl⟩ := Prod.mk.inj same
  have named := (Input.le_takeWhile (· != '|') opened).trans (Input.le_of_eat? bar)
  have elsewhere : input.offset ≠ t.start :=
    clear.ne_start quiet (Nat.lt_of_lt_of_le (Input.lt_of_bar? opens) (Input.offset_le named))
  obtain ⟨reached, again, further⟩ := some_of_rel (carried.bar? quiet elsewhere) opens
  have inside := (clear.right (Input.le_of_bar? opens)).left (Input.le_of_eat? bar)
  obtain ⟨same, last⟩ := further.takeWhile quiet agrees_bar inside
  obtain ⟨end_, found, arrived⟩ := some_of_rel (last.eat? quiet (by decide)) bar
  exact ⟨end_, by rw [again, Option.bind_some, found, same]; rfl, arrived⟩

theorem blockParams?_none (quiet : t.Quiet) (carried : t.Carried input moved)
    (unread : input.blockParams? = none) : moved.blockParams? = none := by
  rw [Input.blockParams?_eq] at unread ⊢
  by_cases arrived : input.offset = t.start
  · have bare := quiet.stillBare
    rw [Input.seesBlockParams_eq, Option.isSome_eq_false_iff, Option.isNone_iff_eq_none] at bare
    rw [(carried.at_start quiet arrived).2, bare]
    rfl
  · have bar := carried.bar? quiet arrived
    generalize input.bar? = one at bar unread
    generalize moved.bar? = other at bar ⊢
    cases bar with
    | none => rfl
    | @some opened reached further =>
      simp only [Option.bind_some, Option.map_eq_none_iff, Input.eat?_bar_eq_none] at unread ⊢
      exact fun barred => unread (further.mem_of_moved quiet (by decide) barred)

/-! ## Else and closing tags -/

private theorem eatElse?_eq (input : Input) : input.eatElse? =
    (input.eatOpen?.bind fun opened => opened.skipBlank.eat? ['e', 'l', 's', 'e']).bind fun word =>
      if word.rest.head?.any Input.endsElse then some word else none := by
  unfold Input.eatElse?
  simp only [bind, Option.bind_assoc]
  congr 1
  funext opened
  congr 1
  funext word
  obtain ⟨offset, rest⟩ := word
  cases rest <;> rfl

theorem eatElse?_some (quiet : t.Quiet) (carried : t.Carried input moved)
    (read : input.eatElse? = some behind) (clear : t.Clear input behind) :
    ∃ reached, moved.eatElse? = some reached ∧ t.Carried behind reached := by
  rw [eatElse?_eq] at read ⊢
  obtain ⟨word, spelled, ends⟩ := Option.bind_eq_some_iff.mp read
  obtain ⟨opened, opens, spelled⟩ := Option.bind_eq_some_iff.mp spelled
  split at ends
  · rename_i ended
    cases ends
    obtain ⟨reached, again, further⟩ := some_of_rel (carried.eatOpen? quiet) opens
    have order := (Input.le_of_eatOpen? opens).trans (Input.le_skipBlank opened)
    obtain ⟨last, found, arrived⟩ :=
      (further.skipBlank quiet).eat?_some quiet spelled (clear.right order)
    rw [arrived.any_head quiet refuses_endsElse.agrees] at ended
    exact ⟨last, by simp [again, found, ended], arrived⟩
  · cases ends

theorem eatElse?_none (quiet : t.Quiet) (carried : t.Carried input moved)
    (unread : input.eatElse? = none) : moved.eatElse? = none := by
  rw [eatElse?_eq] at unread ⊢
  have opens := carried.eatOpen? quiet
  generalize input.eatOpen? = one at opens unread
  generalize moved.eatOpen? = other at opens ⊢
  cases opens with
  | none => rfl
  | @some opened reached further =>
    have spaced := further.skipBlank quiet
    simp only [Option.bind_some] at unread ⊢
    by_cases arrived : opened.skipBlank.offset = t.start
    · rw [(spaced.at_start quiet arrived).2]
      cases spelled : Input.eat? ['e', 'l', 's', 'e'] ⟨t.start, t.retyped ++ t.after⟩ with
      | none => rfl
      | some word => simp [quiet.noElse word spelled]
    · refine none_of_rel (R := t.Carried)
        (rel_bind (spaced.eat?_path quiet arrived (List.all_eq_true.mp (by decide))) ?_) unread
      intro word again last
      rw [last.any_head quiet refuses_endsElse.agrees]
      split
      · exact .some last
      · exact .none

private theorem tagName?_eq (input : Input) : input.tagName? =
    if input.rest.head?.any Input.beginsTagName then some (input.takeWhile Input.isTagNameChar)
    else none := by
  obtain ⟨offset, rest⟩ := input
  cases rest <;> rfl

theorem tagName?_some (quiet : t.Quiet) (carried : t.Carried input moved)
    (read : input.tagName? = some (chars, behind)) (clear : t.Clear input behind) :
    ∃ reached, moved.tagName? = some (chars, reached) ∧ t.Carried behind reached := by
  rw [tagName?_eq] at read ⊢
  rw [← carried.any_head quiet agrees_beginsTagName]
  split at read
  · rename_i begins
    have taken := Option.some.inj read
    have told := carried.takeWhile quiet agrees_tagName (by rwa [taken])
    rw [taken] at told
    exact ⟨_, by rw [if_pos begins]; exact congrArg some (Prod.ext told.1 rfl), told.2⟩
  · cases read

theorem tagName?_none (quiet : t.Quiet) (carried : t.Carried input moved)
    (unread : input.tagName? = none) : moved.tagName? = none := by
  rw [tagName?_eq] at unread ⊢
  rw [← carried.any_head quiet agrees_beginsTagName]
  split at unread
  · cases unread
  · rename_i begins
    rw [if_neg begins]

theorem closeBlock?_some (quiet : t.Quiet) (carried : t.Carried input moved)
    (read : input.closeBlock? = some (chars, behind)) (clear : t.Clear input behind) :
    ∃ reached, moved.closeBlock? = some (chars, reached) ∧ t.Carried behind reached := by
  simp only [Input.closeBlock?, bind, Option.bind_eq_some_iff, pure, Option.some.injEq,
    Prod.mk.injEq, Prod.exists] at read ⊢
  obtain ⟨opened, opens, slash, slashed, name, named, taken, closed, closes, rfl, rfl⟩ := read
  obtain ⟨one, opensAgain, first⟩ := some_of_rel (carried.eatOpen? quiet) opens
  obtain ⟨two, slashedAgain, second⟩ := some_of_rel (first.eat? quiet (by decide)) slashed
  have before := ((Input.le_of_eatOpen? opens).trans (Input.le_of_eat? slashed)).trans
    (Input.le_skipBlank slash)
  have behind := (Input.le_skipBlank named).trans (Input.le_of_eatClose? closes)
  obtain ⟨three, takenAgain, third⟩ := (second.skipBlank quiet).takeSome?_some quiet
    agrees_closeName taken ((clear.right before).left behind)
  obtain ⟨four, closesAgain, last⟩ :=
    some_of_rel ((third.skipBlank quiet).eatClose? quiet) closes
  exact ⟨four, ⟨one, opensAgain, two, slashedAgain, name, three, takenAgain, four, closesAgain, rfl,
    rfl⟩, last⟩

private theorem isSome_eat? (pattern : List Char) (input : Input) :
    (input.eat? pattern).isSome = pattern.isPrefixOf input.rest := by
  induction pattern generalizing input with
  | nil => rfl
  | cons c pattern ih =>
    obtain ⟨offset, rest⟩ := input
    cases rest with
    | nil => rfl
    | cons d rest => by_cases same : c = d <;> simp [Input.eat?, List.isPrefixOf, same, ih]

private theorem isSome_eatClose? (input : Input) : input.eatClose?.isSome =
    (closeBraces.isPrefixOf input.rest || ('~' :: closeBraces).isPrefixOf input.rest) := by
  obtain ⟨offset, rest⟩ := input
  cases rest with
  | nil => rfl
  | cons c rest =>
    by_cases tilde : c = '~'
    · subst tilde
      change (Input.eat? closeBraces ⟨offset + 1, rest⟩).isSome = _
      rw [isSome_eat?]
      simp [List.isPrefixOf, closeBraces]
    · have differ : '~' ≠ c := fun same => tilde same.symm
      rw [Input.eatClose?, Input.skipOptional, Input.eat?, if_neg differ, Option.getD_none,
        isSome_eat?]
      simp [List.isPrefixOf, differ]

private theorem isPrefixOf_of_typed (front others : List Char) {later : List Char} {c : Char}
    (foreign : c ∉ pattern) (starts : pattern.isPrefixOf (front ++ c :: later) = true) :
    pattern.isPrefixOf (front ++ others) = true := by
  induction pattern generalizing front with
  | nil => rfl
  | cons d pattern ih =>
    obtain ⟨differ, foreign⟩ := not_or.mp (mt List.mem_cons.mpr foreign)
    cases front with
    | nil =>
      simp only [List.nil_append, List.isPrefixOf, Bool.and_eq_true, beq_iff_eq] at starts
      exact absurd starts.1.symm differ
    | cons e front =>
      simp only [List.cons_append, List.isPrefixOf, Bool.and_eq_true] at starts ⊢
      exact ⟨starts.1, ih front foreign starts.2⟩

/-- What closes a tag behind blanks stands before whatever is typed there. -/
private theorem closes_of_typed {x y : Input} {front later others : List Char} {c : Char}
    (plain : Input.isPathChar c = true) (old : x.rest = front ++ c :: later)
    (new : y.rest = front ++ others) (closes : x.skipBlank.eatClose?.isSome = true) :
    y.skipBlank.eatClose?.isSome = true := by
  have solid : isBlank c = false := by simp_all [Input.isPathChar]
  have foreign : c ∉ '~' :: closeBraces := by
    intro member
    simp only [closeBraces, List.mem_cons, List.not_mem_nil, or_false] at member
    rcases member with rfl | rfl | rfl <;> exact absurd plain (by decide)
  have brace : c ∉ closeBraces := fun member => foreign (List.mem_cons_of_mem _ member)
  have spaced (x : Input) : x.skipBlank.rest = x.rest.dropWhile isBlank := rfl
  have stays : (c :: later).dropWhile isBlank = c :: later := by simp [solid]
  rw [isSome_eatClose?, spaced, Bool.or_eq_true] at closes ⊢
  rw [old, List.dropWhile_append, stays] at closes
  rw [new, List.dropWhile_append]
  split at closes
  · rcases closes with closes | closes
    · exact absurd (isPrefixOf_of_typed [] [] brace closes) (by decide)
    · exact absurd (isPrefixOf_of_typed [] [] foreign closes) (by decide)
  · rename_i filled
    rw [if_neg filled]
    exact closes.imp (isPrefixOf_of_typed _ _ brace) (isPrefixOf_of_typed _ _ foreign)

private theorem closeName_of_path {c : Char} (path : Input.isPathChar c = true) :
    Input.isCloseNameChar c = true := by
  simp only [Input.isPathChar, Input.isCloseNameChar, List.contains_cons, List.contains_nil,
    Bool.and_eq_true, Bool.not_eq_true', Bool.or_eq_false_iff, bne_iff_ne, beq_eq_false_iff_ne]
    at path ⊢
  obtain ⟨blank, -, -, -, brace, -, -, -, -, tilde, -⟩ := path
  exact ⟨⟨blank, brace⟩, tilde⟩

/-- A closing tag from the name in it on. -/
private def closeName? (input : Input) : Option (List Char × Input) :=
  (input.takeSome? Input.isCloseNameChar).bind fun named =>
    named.2.skipBlank.eatClose?.map fun closed => (named.1, closed)

private theorem isSome_closeName? (input : Input) : (closeName? input).isSome =
    (!(input.rest.takeWhile Input.isCloseNameChar).isEmpty &&
      (Input.skipBlank ⟨0, input.rest.dropWhile Input.isCloseNameChar⟩).eatClose?.isSome) := by
  have spaced (x : Input) : x.skipBlank.rest = x.rest.dropWhile isBlank := rfl
  unfold closeName? Input.takeSome?
  split
  · rename_i empty
    have none_ : input.rest.takeWhile Input.isCloseNameChar = [] := congrArg Prod.fst empty
    simp [none_]
  · rename_i filled
    have some_ : input.rest.takeWhile Input.isCloseNameChar ≠ [] :=
      fun empty => filled _ (Prod.ext empty rfl)
    simp only [Option.bind_some, Option.isSome_map, isSome_eatClose?, spaced]
    simp [some_, Input.takeWhile]

/-- The name in a closing tag and what closes the tag can still be read without what was typed. -/
private theorem closeName?_of_moved (quiet : t.Quiet) (carried : t.Carried input moved)
    (reads : (closeName? moved).isSome = true) : (closeName? input).isSome = true := by
  by_cases clear : t.Clear input (input.takeWhile Input.isCloseNameChar).2
  · have read := rel_bind (S := t.Told) (carried.takeSome? quiet agrees_closeName clear)
      (f := fun named => named.2.skipBlank.eatClose?.map fun closed => (named.1, closed))
      (g := fun named => named.2.skipBlank.eatClose?.map fun closed => (named.1, closed))
      fun _ _ told => rel_map ((told.2.skipBlank quiet).eatClose? quiet) fun _ _ last =>
        ⟨told.1, last⟩
    rwa [closeName?, isSome_of_rel read]
  · cases run : input.takeWhile Input.isCloseNameChar with
    | mk chars behind =>
      rw [run] at clear
      obtain ⟨rest, offset, all, -⟩ := Input.takeWhile_eq.mp run
      obtain ⟨gap, a, b, more, rfl, -, reach, -, -⟩ := carried.crossing quiet rest offset clear
      cases carried with
      | behind past => exact absurd (.inr past) clear
      | @ahead place front before ends =>
        obtain rfl : front = gap := (List.append_inj (rest.trans (List.append_assoc ..))
          (by simp only at reach; omega)).1
        rw [isSome_closeName?, Bool.and_eq_true] at reads ⊢
        have taken : (front ++ (t.token ++ t.after)).takeWhile Input.isCloseNameChar =
          front ++ a :: more := congrArg Prod.fst run
        refine ⟨by simp [taken], ?_⟩
        have closes := reads.2
        obtain ⟨c, others, typed⟩ := quiet.typed
        have named : t.typed.dropWhile Input.isCloseNameChar = [] :=
          List.dropWhile_eq_nil_iff.mpr fun c member => closeName_of_path (quiet.plain c member)
        simp only [List.dropWhile_append_of_pos fun c member => all c (List.mem_append_left _ member),
          retyped, token, List.append_assoc, List.dropWhile_append] at closes ⊢
        split at closes
        · rename_i whole
          simpa only [whole, ↓reduceIte, named, List.isEmpty_nil] using closes
        · rename_i part
          rw [if_neg part]
          rw [typed] at closes
          exact closes_of_typed (quiet.plain c (by simp [typed])) rfl rfl closes

theorem closeBlock?_none (quiet : t.Quiet) (carried : t.Carried input moved)
    (unread : input.closeBlock? = none) : moved.closeBlock? = none := by
  have split (x : Input) : x.closeBlock? =
      (x.eatOpen?.bind (·.eat? ['/'])).bind fun slash => closeName? slash.skipBlank := by
    simp only [Input.closeBlock?, closeName?, bind, Option.bind_assoc, Option.map_eq_bind]
    rfl
  rw [split] at unread ⊢
  have opens := rel_bind (carried.eatOpen? quiet) fun _ _ further =>
    further.eat? quiet (show Marked ['/'] by decide)
  generalize input.eatOpen?.bind (·.eat? ['/']) = one at opens unread
  generalize moved.eatOpen?.bind (·.eat? ['/']) = other at opens ⊢
  cases opens with
  | none => rfl
  | some further =>
    simp only [Option.bind_some] at unread ⊢
    by_contra read
    have found := closeName?_of_moved quiet (further.skipBlank quiet)
      (Option.isSome_iff_ne_none.mpr read)
    rw [unread] at found
    cases found

/-- Where statements go on, they still do. -/
theorem endsBody_false (quiet : t.Quiet) (carried : t.Carried input moved)
    (goesOn : input.endsBody = false) : moved.endsBody = false := by
  simp only [Input.endsBody, Bool.or_eq_false_iff, Option.isSome_eq_false_iff,
    Option.isNone_iff_eq_none] at goesOn ⊢
  obtain ⟨⟨⟨more, open_⟩, unclosed⟩, noElse⟩ := goesOn
  rw [carried.atEnd quiet] at more
  rw [carried.sees quiet (by decide)] at open_
  exact ⟨⟨⟨more, open_⟩, carried.closeBlock?_none quiet unclosed⟩,
    carried.eatElse?_none quiet noElse⟩

theorem staysInTag (quiet : t.Quiet) (carried : t.Carried input moved)
    (stays : input.StaysInTag) : moved.StaysInTag := by
  obtain ⟨more, unclosed, open_⟩ := stays
  refine ⟨?_, none_of_rel (carried.eat? quiet (by decide)) unclosed,
    none_of_rel (carried.eat? quiet (by decide)) open_⟩
  rw [← carried.atEnd quiet, more]

theorem goesOn (quiet : t.Quiet) (carried : t.Carried input moved) (on : input.GoesOn) :
    moved.GoesOn := by
  obtain ⟨more, open_⟩ := on
  exact ⟨by rw [← carried.atEnd quiet, more], by rw [← carried.seesCallEnd quiet, open_]⟩

end Carried

end EmberAssist.Template.Typing
