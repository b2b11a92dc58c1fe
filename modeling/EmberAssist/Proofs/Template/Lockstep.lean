import EmberAssist.Proofs.Template.Grammar
import EmberAssist.Proofs.Template.Typing

/-! Lexemes around a token that is typed into. At the same place of both texts the same lexemes are
read, as long as they are not the token: what ends before it cannot tell how the token goes on. -/
namespace EmberAssist.Template.Typing

open Text

variable {t : Typing} {input moved behind closed : Input} {p : Char → Bool}
variable {pattern chars : List Char}

/-! ## Reading without the token -/

theorem Clear.trans {next : Input} (quiet : t.Quiet) (first : t.Clear input behind)
    (second : t.Clear behind next) : t.Clear input next := by
  have nonempty := quiet.start_lt_stop
  unfold Clear at *
  omega

/-- The same is told of both texts, up to places that are the same. -/
def Told {α : Type} (t : Typing) (found moved : α × Input) : Prop :=
  moved.1 = found.1 ∧ t.Carried found.2 moved.2

section Related
variable {α β γ δ : Type} {R : α → β → Prop} {S : γ → δ → Prop} {one : Option α} {other : Option β}

theorem rel_bind {f : α → Option γ} {g : β → Option δ} (related : Option.Rel R one other)
    (next : ∀ a b, R a b → Option.Rel S (f a) (g b)) : Option.Rel S (one.bind f) (other.bind g) := by
  cases related with
  | none => exact .none
  | some found => exact next _ _ found

theorem rel_map {f : α → γ} {g : β → δ} (related : Option.Rel R one other)
    (next : ∀ a b, R a b → S (f a) (g b)) : Option.Rel S (one.map f) (other.map g) := by
  cases related with
  | none => exact .none
  | some found => exact .some (next _ _ found)

theorem isSome_of_rel (related : Option.Rel R one other) : one.isSome = other.isSome := by
  cases related <;> rfl

theorem none_of_rel (related : Option.Rel R one other) (unread : one = none) : other = none := by
  cases related with
  | none => rfl
  | some => cases unread

theorem getD_of_rel {one other : Option Input} (related : Option.Rel t.Carried one other)
    (carried : t.Carried input moved) : t.Carried (one.getD input) (other.getD moved) := by
  cases related with
  | none => exact carried
  | some found => exact found

theorem some_of_rel {a : α} (related : Option.Rel R one other) (read : one = some a) :
    ∃ b, other = some b ∧ R a b := by
  cases related with
  | none => cases read
  | some found =>
    cases read
    exact ⟨_, rfl, found⟩

theorem of_rel_told {one other : Option (α × Input)} {a : α}
    (told : Option.Rel t.Told one other) (read : one = some (a, behind)) :
    ∃ reached, other = some (a, reached) ∧ t.Carried behind reached := by
  obtain ⟨⟨b, reached⟩, found, same, carried⟩ := some_of_rel told read
  cases same
  exact ⟨reached, found, carried⟩

end Related

theorem Clear.left {next : Input} (clear : t.Clear input behind) (order : next ≤ behind) :
    t.Clear input next := by
  have offset := Input.offset_le order
  unfold Clear at *
  omega

theorem Clear.right {next : Input} (clear : t.Clear input behind) (order : input ≤ next) :
    t.Clear next behind := by
  have offset := Input.offset_le order
  unfold Clear at *
  omega

theorem Clear.ne_start (quiet : t.Quiet) (clear : t.Clear input behind)
    (order : input.offset < behind.offset) : input.offset ≠ t.start := by
  have nonempty := quiet.start_lt_stop
  unfold Clear at clear
  omega

theorem Clear.tail {offset : Nat} {rest : List Char} (clear : t.Clear ⟨offset, chars⟩ behind) :
    t.Clear ⟨offset + 1, rest⟩ behind := by
  simp only [Clear] at clear ⊢
  omega

/-- Neither before nor after typing does the token begin with a character of this text. -/
def Bars (t : Typing) (pattern : List Char) : Prop :=
  ∀ c ∈ pattern, t.token.head? ≠ some c ∧ t.retyped.head? ≠ some c

theorem Quiet.bars_of (quiet : t.Quiet)
    (refused : ∀ c ∈ pattern, ∀ a b, Alike a b → (a == c) = false ∧ (b == c) = false) :
    t.Bars pattern := by
  intro c member
  obtain ⟨a, b, rest, others, token, retyped, alike⟩ := quiet.alike
  obtain ⟨old, new⟩ := refused c member a b alike
  rw [token, retyped]
  constructor
  · simpa using old
  · simpa using new

namespace Carried

/-- The place in the patched text is determined by the place in the text. -/
theorem unique {reached : Input} (quiet : t.Quiet) (carried : t.Carried input moved)
    (other : t.Carried input reached) : moved = reached := by
  have nonempty := quiet.start_lt_stop
  cases carried with
  | @ahead offset gap before reach =>
    generalize same : (⟨offset, gap ++ (t.token ++ t.after)⟩ : Input) = input at other
    cases other with
    | ahead =>
      obtain ⟨rfl, gaps⟩ := Input.mk.inj same
      rw [List.append_cancel_right gaps]
    | behind past =>
      obtain ⟨rfl, -⟩ := Input.mk.inj same
      omega
  | @behind offset rest past =>
    generalize same : (⟨offset, rest⟩ : Input) = input at other
    cases other with
    | ahead before reach =>
      obtain ⟨rfl, -⟩ := Input.mk.inj same
      omega
    | behind =>
      obtain ⟨rfl, rfl⟩ := Input.mk.inj same
      rfl

/-- What is read with the token in it goes on, behind what stands before the token, with the first
character of the token. -/
theorem crossing (quiet : t.Quiet) (carried : t.Carried input moved)
    (rest : input.rest = chars ++ behind.rest)
    (offset : behind.offset = input.offset + chars.length) (crosses : ¬ t.Clear input behind) :
    ∃ gap a b more, chars = gap ++ a :: more ∧ gap <:+ t.before ∧
      input.offset + gap.length = t.start ∧ Alike a b ∧ t.retyped.head? = some b := by
  obtain ⟨a, b, token, others, begins, retyped, alike⟩ := quiet.alike
  obtain ⟨early, late⟩ := not_or.mp crosses
  cases carried with
  | behind past => exact absurd past late
  | @ahead place gap before reach =>
    simp only at rest offset early
    rcases List.append_eq_append_iff.mp rest with ⟨more, rfl, same⟩ | ⟨excess, rfl, -⟩
    · cases more with
      | nil =>
        rw [List.append_nil] at offset
        omega
      | cons c more =>
        rw [begins, List.cons_append, List.cons_append, List.cons.injEq] at same
        obtain ⟨rfl, -⟩ := same
        exact ⟨gap, a, b, more, rfl, before, reach, alike, by rw [retyped]; rfl⟩
    · rw [List.length_append] at reach
      omega

/-- A run of characters that no token begins with stops before the token. -/
theorem clear_of_refuses (quiet : t.Quiet) (carried : t.Carried input moved) (refuses : Refuses p)
    (rest : input.rest = chars ++ behind.rest)
    (offset : behind.offset = input.offset + chars.length) (all : ∀ c ∈ chars, p c = true) :
    t.Clear input behind := by
  by_contra crosses
  obtain ⟨gap, a, b, more, rfl, -, -, alike, -⟩ := carried.crossing quiet rest offset crosses
  have taken := all a (by simp)
  rw [(refuses a b alike).1] at taken
  cases taken

theorem clear_takeWhile (quiet : t.Quiet) (carried : t.Carried input moved) (refuses : Refuses p) :
    t.Clear input (input.takeWhile p).2 := by
  obtain ⟨rest, offset, all, -⟩ := Input.takeWhile_eq.mp (Eq.refl (input.takeWhile p))
  exact carried.clear_of_refuses quiet refuses rest offset all

/-- Characters of names are not read on into a token that begins behind them. -/
theorem clear_of_path (quiet : t.Quiet) (carried : t.Carried input moved)
    (elsewhere : input.offset ≠ t.start) (rest : input.rest = chars ++ behind.rest)
    (offset : behind.offset = input.offset + chars.length)
    (all : ∀ c ∈ chars, Input.isPathChar c = true) : t.Clear input behind := by
  by_contra crosses
  obtain ⟨gap, a, b, more, rfl, ends, reach, alike, begins⟩ :=
    carried.crossing quiet rest offset crosses
  rcases List.eq_nil_or_concat gap with rfl | ⟨front, last, rfl⟩
  · exact elsewhere reach
  · obtain ⟨start, same⟩ := ends
    have refused := quiet.lone last (by simp [← same]) (all last (by simp)) b begins
    rw [← agrees_path a b alike, all a (by simp)] at refused
    cases refused

/-! ## Fixed texts -/

theorem eat?_some (quiet : t.Quiet) (carried : t.Carried input moved)
    (read : input.eat? pattern = some behind) (clear : t.Clear input behind) :
    ∃ reached, moved.eat? pattern = some reached ∧ t.Carried behind reached := by
  obtain ⟨taken, reached, carried, rest, movedRest, offset, movedOffset⟩ :=
    carried.split quiet (Input.le_of_eat? read) clear
  obtain ⟨here, place⟩ := Input.eat?_eq_some.mp read
  obtain rfl : taken = pattern := List.append_cancel_right (rest.symm.trans here)
  exact ⟨reached, Input.eat?_eq_some.mpr ⟨movedRest, movedOffset⟩, carried⟩

/-- A text that cannot be read on into the token is read at both places or at neither. -/
private theorem eat?_of_bars (quiet : t.Quiet) (carried : t.Carried input moved)
    (apart : input.offset = t.start → t.Bars pattern)
    (stays : ∀ c ∈ t.before.getLast?, c ∈ pattern → t.Bars pattern) :
    Option.Rel t.Carried (input.eat? pattern) (moved.eat? pattern) := by
  obtain ⟨a, b, rest, others, token, retyped, -⟩ := quiet.alike
  induction pattern generalizing input moved with
  | nil => exact .some carried
  | cons c pattern ih =>
    have tail (bars : t.Bars (c :: pattern)) : t.Bars pattern :=
      fun d member => bars d (List.mem_cons_of_mem c member)
    have later := fun d ends member => tail (stays d ends (List.mem_cons_of_mem c member))
    cases carried with
    | @ahead offset gap before reach =>
      cases gap with
      | nil =>
        have differ := apart reach c (by simp)
        have old : c ≠ a := fun same => differ.1 (by rw [token, same]; rfl)
        have new : c ≠ b := fun same => differ.2 (by rw [retyped, same]; rfl)
        simp only [token, retyped, List.nil_append, List.cons_append, Input.eat?, old, new,
          ↓reduceIte]
        exact .none
      | cons d gap =>
        by_cases same : c = d
        · subst same
          simp only [Input.eat?, List.cons_append, ↓reduceIte]
          refine ih (.ahead ((List.suffix_cons c gap).trans before)
            (by simp only [List.length_cons] at reach; omega)) (fun arrived => ?_) later
          refine tail (stays c ?_ (by simp))
          obtain rfl : gap = [] := by
            rw [← List.length_eq_zero_iff]
            simp only [List.length_cons] at reach arrived
            omega
          obtain ⟨start, ends⟩ := before
          simp [← ends]
        · simp only [Input.eat?, List.cons_append, same, ↓reduceIte]
          exact .none
    | @behind offset rest past =>
      cases rest with
      | nil => exact .none
      | cons d rest =>
        by_cases same : c = d
        · simp only [Input.eat?, same, ↓reduceIte]
          have further : t.Carried ⟨offset + 1, rest⟩ ⟨offset + 1 + t.typed.length, rest⟩ :=
            .behind (by omega)
          rw [Nat.add_right_comm] at further
          refine ih further (fun arrived => ?_) later
          have nonempty := quiet.start_lt_stop
          simp only at arrived
          omega
        · simp only [Input.eat?, same, ↓reduceIte]
          exact .none

/-- A text of marks is read at both places or at neither. -/
theorem eat? (quiet : t.Quiet) (carried : t.Carried input moved)
    (marked : Marked pattern) :
    Option.Rel t.Carried (input.eat? pattern) (moved.eat? pattern) := by
  have bars := quiet.bars_of fun c member => refuses_mark (marked c member)
  exact carried.eat?_of_bars quiet (fun _ => bars) fun _ _ _ => bars

/-- A text of characters of names is read at both places or at neither, unless the token begins
there. -/
theorem eat?_path (quiet : t.Quiet) (carried : t.Carried input moved)
    (elsewhere : input.offset ≠ t.start) (path : ∀ c ∈ pattern, Input.isPathChar c = true) :
    Option.Rel t.Carried (input.eat? pattern) (moved.eat? pattern) := by
  refine carried.eat?_of_bars quiet (fun arrived => absurd arrived elsewhere) ?_
  intro c ends member d named
  obtain ⟨a, b, rest, others, token, retyped, alike⟩ := quiet.alike
  have new := quiet.lone c ends (path c member) b (by simp [retyped])
  have old := (agrees_path a b alike).trans new
  have taken := path d named
  rw [token, retyped, List.head?_cons, List.head?_cons, Ne, Ne, Option.some.injEq,
    Option.some.injEq]
  constructor
  · rintro rfl
    rw [old] at taken
    cases taken
  · rintro rfl
    rw [new] at taken
    cases taken

theorem sees (quiet : t.Quiet) (carried : t.Carried input moved)
    (marked : Marked pattern) : input.sees pattern = moved.sees pattern :=
  isSome_of_rel (carried.eat? quiet marked)

theorem skipOptional (quiet : t.Quiet) (carried : t.Carried input moved)
    (marked : Marked pattern) :
    t.Carried (input.skipOptional pattern) (moved.skipOptional pattern) :=
  getD_of_rel (carried.eat? quiet marked) carried

theorem any_head (quiet : t.Quiet) (carried : t.Carried input moved) (agrees : Agrees p) :
    input.rest.head?.any p = moved.rest.head?.any p := by
  have any_eq (found : Option Char) : found.any p = (found.map p).getD false := by
    cases found <;> rfl
  rw [any_eq, any_eq, carried.head quiet agrees]

theorem all_head (quiet : t.Quiet) (carried : t.Carried input moved) (agrees : Agrees p) :
    input.rest.head?.all p = moved.rest.head?.all p := by
  have all_eq (found : Option Char) : found.all p = (found.map p).getD true := by
    cases found <;> rfl
  rw [all_eq, all_eq, carried.head quiet agrees]

/-- A single character that takes both beginnings of the token or neither is at both places or at
neither. -/
theorem sees_single {c : Char} (quiet : t.Quiet) (carried : t.Carried input moved)
    (agrees : Agrees (· == c)) : input.sees [c] = moved.sees [c] := by
  have seen (x : Input) : x.sees [c] = x.rest.head?.any (· == c) := by
    obtain ⟨offset, rest⟩ := x
    cases rest with
    | nil => rfl
    | cons d rest => by_cases same : c = d <;> simp [Input.sees, Input.eat?, same, eq_comm (a := d)]
  rw [seen, seen, carried.any_head quiet agrees]

theorem eatClose? (quiet : t.Quiet) (carried : t.Carried input moved) :
    Option.Rel t.Carried input.eatClose? moved.eatClose? :=
  (carried.skipOptional quiet (by decide)).eat? quiet (by decide)

theorem eatOpen? (quiet : t.Quiet) (carried : t.Carried input moved) :
    Option.Rel t.Carried input.eatOpen? moved.eatOpen? :=
  rel_map (carried.eat? quiet (by decide)) fun _ _ further =>
    further.skipOptional quiet (by decide)

theorem longCommentClose? (quiet : t.Quiet) (carried : t.Carried input moved) :
    Option.Rel t.Carried input.longCommentClose? moved.longCommentClose? :=
  rel_bind (carried.eat? quiet (by decide)) fun _ _ further => further.eatClose? quiet

theorem closesComment {isLong : Bool} (quiet : t.Quiet) (carried : t.Carried input moved) :
    Option.Rel t.Carried (commentCloser isLong input) (commentCloser isLong moved) := by
  cases isLong with
  | true => exact carried.longCommentClose? quiet
  | false => exact carried.eatClose? quiet

theorem commentOpen? (quiet : t.Quiet) (carried : t.Carried input moved) :
    Option.Rel t.Told input.commentOpen? moved.commentOpen? := by
  refine rel_map (rel_bind (carried.eatOpen? quiet) fun _ _ further =>
    further.eat? quiet (by decide)) fun behind reached further => ?_
  have dashes := further.eat? quiet (show Marked ['-', '-'] by decide)
  generalize behind.eat? ['-', '-'] = one at dashes ⊢
  generalize reached.eat? ['-', '-'] = other at dashes ⊢
  cases dashes with
  | none => exact ⟨rfl, further⟩
  | some further => exact ⟨rfl, further⟩

theorem seesBlockOpen (quiet : t.Quiet) (carried : t.Carried input moved) :
    input.seesBlockOpen = moved.seesBlockOpen := by
  unfold Input.seesBlockOpen
  have opens := carried.eatOpen? quiet
  generalize input.eatOpen? = one at opens ⊢
  generalize moved.eatOpen? = other at opens ⊢
  cases opens with
  | none => rfl
  | some further => exact further.sees_single quiet agrees_hash

theorem atEnd (quiet : t.Quiet) (carried : t.Carried input moved) : input.atEnd = moved.atEnd := by
  have head := carried.head quiet (p := fun _ => true) fun _ _ _ => rfl
  have ends (x : Input) : x.atEnd = (x.rest.head?.map fun _ => true).isNone := by
    obtain ⟨offset, rest⟩ := x
    cases rest <;> rfl
  rw [ends, ends, head]

theorem clear_eat? {c : Char} (quiet : t.Quiet) (carried : t.Carried input moved)
    (marked : c ∈ marks) (read : input.eat? [c] = some behind) : t.Clear input behind := by
  obtain ⟨rest, offset⟩ := Input.eat?_eq_some.mp read
  exact carried.clear_of_refuses quiet (refuses_mark marked) rest offset (by simp)

theorem clear_refl (carried : t.Carried input moved) : t.Clear input input := by
  rcases carried.le_start_or with ⟨early, -⟩ | ⟨late, -⟩
  · exact .inl early
  · exact .inr late

theorem clear_skipOptional {c : Char} (quiet : t.Quiet) (carried : t.Carried input moved)
    (marked : c ∈ marks) : t.Clear input (input.skipOptional [c]) := by
  unfold Input.skipOptional
  cases read : input.eat? [c] with
  | none => exact carried.clear_refl
  | some behind => exact carried.clear_eat? quiet marked read

/-! ## Runs of characters -/

theorem takeWhile (quiet : t.Quiet) (carried : t.Carried input moved) (agrees : Agrees p)
    (clear : t.Clear input (input.takeWhile p).2) :
    t.Told (input.takeWhile p) (moved.takeWhile p) := by
  obtain ⟨taken, reached, further, rest, movedRest, offset, movedOffset⟩ :=
    carried.split quiet (Input.le_takeWhile p input) clear
  obtain ⟨whole, -, all, stops⟩ := Input.takeWhile_eq.mp (Eq.refl (input.takeWhile p))
  obtain rfl : taken = (input.takeWhile p).1 := List.append_cancel_right (rest.symm.trans whole)
  have same : moved.takeWhile p = ((input.takeWhile p).1, reached) := by
    refine Input.takeWhile_eq.mpr ⟨movedRest, movedOffset, all, fun c next => ?_⟩
    have head := further.head quiet agrees
    rw [next] at head
    obtain ⟨d, here, alike⟩ := Option.map_eq_some_iff.mp head
    rw [← alike, stops d here]
  rw [same]
  exact ⟨rfl, further⟩

theorem skipBlank (quiet : t.Quiet) (carried : t.Carried input moved) :
    t.Carried input.skipBlank moved.skipBlank :=
  (carried.takeWhile quiet refuses_blank.agrees (carried.clear_takeWhile quiet refuses_blank)).2

theorem skipTilde (quiet : t.Quiet) (carried : t.Carried input moved) :
    t.Carried input.skipTilde moved.skipTilde :=
  (carried.skipBlank quiet).skipOptional quiet (by decide)

theorem takeSome? (quiet : t.Quiet) (carried : t.Carried input moved) (agrees : Agrees p)
    (clear : t.Clear input (input.takeWhile p).2) :
    Option.Rel t.Told (input.takeSome? p) (moved.takeSome? p) := by
  have told := carried.takeWhile quiet agrees clear
  have unfolded (x : Input) : x.takeSome? p =
      if (x.takeWhile p).1 = [] then none else some (x.takeWhile p) := by
    unfold Input.takeSome?
    split
    · rename_i taken
      simp [taken]
    · rename_i differ
      rw [if_neg fun empty => differ _ (Prod.ext empty rfl)]
  rw [unfolded, unfolded, told.1]
  split
  · exact .none
  · exact .some told

theorem takeSome?_some (quiet : t.Quiet) (carried : t.Carried input moved) (agrees : Agrees p)
    (read : input.takeSome? p = some (chars, behind)) (clear : t.Clear input behind) :
    ∃ reached, moved.takeSome? p = some (chars, reached) ∧ t.Carried behind reached := by
  have taken := (Input.takeSome?_eq_some.mp read).1
  have told := carried.takeSome? quiet agrees (by rwa [taken])
  exact of_rel_told told read

/-! ## Text up to a stop -/

theorem upTo_some {closer : Input → Option Input} (quiet : t.Quiet)
    (carried : t.Carried input moved)
    (sturdy : ∀ input moved, t.Carried input moved →
      Option.Rel t.Carried (closer input) (closer moved))
    (forward : ∀ input behind, closer input = some behind → input ≤ behind)
    (read : input.upTo closer = some (chars, behind)) (clear : t.Clear input behind) :
    ∃ reached, moved.upTo closer = some (chars, reached) ∧ t.Carried behind reached := by
  obtain ⟨offset, rest⟩ := input
  induction rest generalizing offset moved chars with
  | nil => cases read
  | cons c rest ih =>
    simp only [Input.upTo, Input.upToFrom] at read
    have same := sturdy _ _ carried
    split at read
    · rename_i found
      cases read
      obtain ⟨reached, closes, further⟩ := some_of_rel same found
      obtain ⟨place, others⟩ := moved
      have filled := carried.atEnd quiet
      cases others with
      | nil => cases filled
      | cons d others => exact ⟨reached, by simp [Input.upTo, Input.upToFrom, closes], further⟩
    · rename_i passes
      obtain ⟨⟨before, found⟩, later, joined⟩ := Option.map_eq_some_iff.mp read
      cases joined
      have behind : Input.upTo closer ⟨offset + 1, rest⟩ = _ := later
      have order := Input.offset_le (Input.le_of_upTo forward behind)
      obtain ⟨others, split, further⟩ := carried.step (clear.ne_start quiet order)
      obtain ⟨reached, found, last⟩ := ih (offset + 1) further later clear.tail
      obtain ⟨place, others⟩ := moved
      cases split
      have unread := none_of_rel same passes
      simp only [Input.upTo] at found
      exact ⟨reached, by simp [Input.upTo, Input.upToFrom, unread, found], last⟩

theorem takeUntil {stops : List Char → Bool} (quiet : t.Quiet) (carried : t.Carried input moved)
    (agree : ∀ input moved, t.Carried input moved → stops input.rest = stops moved.rest)
    (read : input.takeUntil stops = (chars, behind)) (clear : t.Clear input behind) :
    ∃ reached, moved.takeUntil stops = (chars, reached) ∧ t.Carried behind reached := by
  obtain ⟨offset, rest⟩ := input
  induction rest generalizing offset moved chars with
  | nil =>
    obtain ⟨place, others⟩ := moved
    have filled := carried.atEnd quiet
    cases read
    cases others with
    | nil => exact ⟨_, rfl, carried⟩
    | cons d others => cases filled
  | cons c rest ih =>
    simp only [Input.takeUntil, Input.untilFrom] at read
    have same := agree _ _ carried
    split at read
    · rename_i stopped
      cases read
      obtain ⟨place, others⟩ := moved
      have filled := carried.atEnd quiet
      cases others with
      | nil => cases filled
      | cons d others =>
        simp only [stopped] at same
        exact ⟨_, by simp [Input.takeUntil, Input.untilFrom, ← same], carried⟩
    · rename_i passes
      cases read
      have order := Input.offset_le (Input.le_takeUntil stops ⟨offset + 1, rest⟩)
      obtain ⟨others, split, further⟩ := carried.step (clear.ne_start quiet order)
      obtain ⟨reached, found, last⟩ := ih (offset + 1) further rfl clear.tail
      obtain ⟨place, others⟩ := moved
      cases split
      simp only [Bool.not_eq_true] at passes
      simp only [passes] at same
      simp only [Input.takeUntil] at found
      exact ⟨reached, by simp [Input.takeUntil, Input.untilFrom, ← same, found], last⟩

/-! ## Running text -/

private theorem sees_eq_false {token : List Char} (differ : ∀ others, input.rest ≠ token ++ others) :
    input.sees token = false := by
  rw [Input.sees, Option.isSome_eq_false_iff, Option.isNone_iff_eq_none]
  exact Option.eq_none_iff_forall_ne_some.mpr fun behind read =>
    differ behind.rest (Input.eat?_eq_some.mp read).1

private theorem endsText_eq (input : Input) : Input.endsText input.rest =
    (input.sees openBraces || input.sees ['<', '!', '-', '-'] ||
      ((input.eat? ['<']).any fun opened =>
        opened.rest.head?.any fun c => Input.beginsTagName c || c == '/')) := by
  obtain ⟨offset, rest⟩ := input
  simp only
  unfold Input.endsText
  split
  · simp [Input.sees, Input.eat?, openBraces]
  · simp [Input.sees, Input.eat?, openBraces]
  · rename_i c rest differ
    have braces : Input.sees openBraces ⟨offset, '<' :: c :: rest⟩ = false :=
      sees_eq_false (by simp [openBraces])
    have comment : Input.sees ['<', '!', '-', '-'] ⟨offset, '<' :: c :: rest⟩ = false :=
      sees_eq_false (by simpa using differ)
    rw [braces, comment]
    simp [Input.eat?]
  · rename_i braces comment angle
    rw [sees_eq_false braces, sees_eq_false comment]
    cases rest with
    | nil => rfl
    | cons c rest =>
      by_cases left : '<' = c
      · cases rest with
        | nil => simp [Input.eat?, ← left]
        | cons d rest => exact (angle d rest (by rw [left])).elim
      · simp [Input.eat?, left]

theorem endsText (quiet : t.Quiet) (carried : t.Carried input moved) :
    Input.endsText input.rest = Input.endsText moved.rest := by
  have agrees : Agrees fun c => Input.beginsTagName c || c == '/' := fun a b alike => by
    have slash := (refuses_mark (c := '/') (by decide)).agrees a b alike
    simp only [agrees_beginsTagName a b alike, slash]
  rw [endsText_eq, endsText_eq, carried.sees quiet (show Marked openBraces by decide),
    carried.sees quiet (show Marked ['<', '!', '-', '-'] by decide)]
  have opens := carried.eat? quiet (show Marked ['<'] by decide)
  generalize input.eat? ['<'] = one at opens ⊢
  generalize moved.eat? ['<'] = other at opens ⊢
  cases opens with
  | none => rfl
  | some further =>
    simp only [Option.any_some, further.any_head quiet agrees]

theorem endsPiece {quote : Char} (quiet : t.Quiet) (carried : t.Carried input moved)
    (quoted : quote = '\'' ∨ quote = '"') :
    Input.endsPiece quote input.rest = Input.endsPiece quote moved.rest := by
  have ends (x : Input) : Input.endsPiece quote x.rest =
      (x.sees openBraces || x.rest.head?.any (· == quote)) := by
    obtain ⟨offset, rest⟩ := x
    simp only
    unfold Input.endsPiece
    split
    · simp [Input.sees, Input.eat?, openBraces]
    · rename_i c rest differ
      rw [sees_eq_false (by simpa [openBraces] using differ)]
      rfl
    · rfl
  rw [ends, ends, carried.sees quiet (show Marked openBraces by decide),
    carried.any_head quiet (agrees_quote quoted)]

theorem takeText_some (quiet : t.Quiet) (carried : t.Carried input moved)
    (clear : t.Clear input input.takeText.2) : t.Told input.takeText moved.takeText := by
  obtain ⟨offset, rest⟩ := input
  cases rest with
  | nil =>
    obtain ⟨place, others⟩ := moved
    have filled := carried.atEnd quiet
    cases others with
    | nil => exact ⟨rfl, carried⟩
    | cons d others => cases filled
  | cons c rest =>
    have order := Input.offset_le (Input.le_takeUntil Input.endsText ⟨offset + 1, rest⟩)
    obtain ⟨others, split, further⟩ := carried.step (clear.ne_start quiet order)
    obtain ⟨reached, found, last⟩ := further.takeUntil quiet
      (fun _ _ carried => carried.endsText quiet) rfl clear.tail
    obtain ⟨place, others⟩ := moved
    cases split
    simp only [Input.takeUntil] at found
    exact ⟨by simp [Input.takeText, found], by simpa [Input.takeText, found] using last⟩

end Carried

end EmberAssist.Template.Typing
