import Mathlib.Data.List.Induction
import EmberAssist.Settings
import EmberAssist.Template.Focus
import EmberAssist.Proofs.Template.Progress

/-! The placeholder in the spelling of a token. It is found again where it was typed, and taking it
out leaves what the token was spelled like before. -/
namespace EmberAssist

namespace Text

variable {head : Char} {tail pattern front back text : List Char}

private theorem replaceAfter_skip (pattern : List Char) (skip : Nat) (text : List Char) :
    replaceAfter pattern [] skip text = replaceAfter pattern [] 0 (text.drop skip) := by
  induction text generalizing skip with
  | nil => simp [replaceAfter]
  | cons c text ih =>
    cases skip with
    | zero => rfl
    | succ skip => rw [replaceAfter, ih, List.drop_succ_cons]

private theorem replaceAfter_of_free (free : ¬ pattern <:+: text) :
    replaceAfter pattern [] 0 text = text := by
  induction text with
  | nil => rfl
  | cons c text ih =>
    obtain ⟨first, later⟩ := not_or.mp fun found => free (List.infix_cons_iff.mpr found)
    have here : startsWith (c :: text) pattern = false := by
      simpa [startsWith, ← Bool.not_eq_true] using first
    rw [replaceAfter, here, ih later]
    rfl

/-- A text whose first character does not occur in it again does not begin across the place where
it was put. -/
private theorem not_prefix_of_once (back : List Char) (once : head ∉ tail) (filled : front ≠ [])
    (free : ¬ head :: tail <:+: front) : ¬ head :: tail <+: front ++ (head :: tail ++ back) := by
  rintro ⟨rest, same⟩
  rcases List.append_eq_append_iff.mp same with ⟨excess, inside, -⟩ | ⟨excess, across, later⟩
  · exact free ⟨[], excess, by rw [inside]; rfl⟩
  · cases excess with
    | nil => exact free ⟨[], [], by simpa using across⟩
    | cons c excess =>
      obtain ⟨rfl, -⟩ := List.cons.inj later
      cases front with
      | nil => exact filled rfl
      | cons d front =>
        obtain ⟨rfl, split⟩ := List.cons.inj across
        exact once (by rw [split]; simp)

/-- What was put into a text that does not have it is found nowhere else there. -/
theorem length_eq_of_once {left right : List Char} (once : head ∉ tail)
    (free : ¬ head :: tail <:+: front ++ back)
    (found : front ++ (head :: tail ++ back) = left ++ (head :: tail ++ right)) :
    left.length = front.length := by
  rcases List.append_eq_append_iff.mp found with ⟨gap, rfl, later⟩ | ⟨gap, rfl, later⟩
  · by_contra apart
    have filled : gap ≠ [] := by
      rintro rfl
      simp at apart
    refine not_prefix_of_once right once filled (fun inside => ?_) (later ▸ List.prefix_append _ _)
    rcases List.append_eq_append_iff.mp later with ⟨rest, rfl, behind⟩ | ⟨rest, across, -⟩
    · exact free ⟨front ++ rest, right, by rw [behind]; simp⟩
    · obtain rfl := inside.eq_of_length_le (by rw [across]; simp)
      exact free ⟨front, right, by rw [List.append_cancel_left later, List.append_assoc]⟩
  · by_contra apart
    have filled : gap ≠ [] := by
      rintro rfl
      simp at apart
    refine not_prefix_of_once back once filled (fun inside => free ?_)
      (later ▸ List.prefix_append _ _)
    exact inside.trans ⟨left, back, by simp⟩

/-- What was put somewhere into a run of a text lies in that run, if what is behind the run does not
begin with any of its characters. -/
theorem exists_of_cut {run left right typed : List Char}
    (source : front ++ (typed ++ back) = left ++ (run ++ right))
    (first : left.length ≤ front.length) (last : front.length ≤ left.length + run.length)
    (stops : ∀ c ∈ right.head?, c ∉ typed) :
    ∃ early late, run = early ++ (typed ++ late) ∧ front = left ++ early := by
  obtain ⟨early, rfl⟩ : left <+: front :=
    List.prefix_of_prefix_length_le ⟨_, source.symm⟩ ⟨_, rfl⟩ first
  rw [List.append_assoc] at source
  have rest := List.append_cancel_left source
  obtain ⟨late, rfl⟩ : early <+: run :=
    List.prefix_of_prefix_length_le ⟨_, rest⟩ ⟨_, rfl⟩ (by simpa using last)
  rw [List.append_assoc] at rest
  rcases List.append_eq_append_iff.mp (List.append_cancel_left rest) with
    ⟨gap, rfl, -⟩ | ⟨gap, rfl, behind⟩
  · exact ⟨early, gap, rfl, rfl⟩
  · cases gap with
    | nil => exact ⟨early, [], by simp, rfl⟩
    | cons c gap => exact absurd (by simp) (stops c (by rw [behind]; rfl))

/-- What was put into a text is what is taken out of it. -/
theorem replace_typed (once : head ∉ tail) (before : ¬ head :: tail <:+: front)
    (behind : ¬ head :: tail <:+: back) :
    replace (head :: tail) [] (front ++ (head :: tail ++ back)) = front ++ back := by
  rw [replace, if_neg (by simp)]
  induction front with
  | nil =>
    have here : startsWith (head :: tail ++ back) (head :: tail) = true := by
      simp [startsWith]
    rw [List.nil_append, List.cons_append, replaceAfter, ← List.cons_append, here, if_pos rfl,
      replaceAfter_skip, List.length_cons, Nat.add_sub_cancel, List.drop_left,
      replaceAfter_of_free behind, List.nil_append]
  | cons c front ih =>
    have elsewhere := not_prefix_of_once back once (List.cons_ne_nil c front) before
    have here : startsWith (c :: (front ++ (head :: tail ++ back))) (head :: tail) = false := by
      rw [startsWith, ← Bool.not_eq_true, List.isPrefixOf_iff_prefix]
      exact elsewhere
    rw [List.cons_append, replaceAfter, here,
      ih fun found => before (found.trans (List.suffix_cons c front).isInfix)]
    rfl

end Text

namespace Template.Input

variable {quote c : Char} {left right typed raw rest value pattern : List Char}

private theorem unescape_append (plain : ∀ c ∈ typed, c ≠ quote ∧ c ≠ '\\') :
    unescape quote (typed ++ right) = (unescape quote right).map (typed ++ ·) := by
  induction typed with
  | nil => simp
  | cons c typed ih =>
    obtain ⟨differ, back⟩ := plain c (by simp)
    rw [List.cons_append, unescape_cons differ fun same => absurd same back,
      ih fun d member => plain d (List.mem_cons_of_mem c member), Option.map_map]
    rfl

/-- What is typed into a string, but not between a backslash and the quote that it escapes, is typed
into its value. -/
theorem unescape_typed (plain : ∀ c ∈ typed, c ≠ quote ∧ c ≠ '\\') (filled : typed ≠ [])
    (apart : ¬ (left.getLast? = some '\\' ∧ right.head? = some quote))
    (read : unescape quote (left ++ right) = some value) : ∃ front back, value = front ++ back ∧
      unescape quote (left ++ (typed ++ right)) = some (front ++ (typed ++ back)) := by
  induction left using unescape.induct quote generalizing value with
  | case1 =>
    have read : unescape quote right = some value := read
    exact ⟨[], value, rfl, by simp [unescape_append plain, read]⟩
  | case2 c ends | case3 c differ =>
    rcases unescape_cons_eq_some read with ⟨_, _, rfl, next, -, -⟩ | ⟨inner, differ, -, rfl, behind⟩
    · exact absurd ⟨rfl, by rw [show right = _ from next]; rfl⟩ apart
    · obtain ⟨d, others, rfl⟩ := List.exists_cons_of_ne_nil filled
      have first : unescape quote (c :: (d :: others ++ right)) = _ :=
        unescape_cons differ fun _ => ⟨d, others ++ right, rfl, (plain d (by simp)).1⟩
      refine ⟨[c], inner, rfl, ?_⟩
      rw [List.cons_append, List.nil_append, first, unescape_append plain,
        show unescape quote right = _ from behind]
      rfl
  | case4 c d left escaped ih =>
    obtain ⟨rfl, rfl⟩ := escaped
    rcases unescape_cons_eq_some read with ⟨_, inner, -, next, rfl, behind⟩ | ⟨_, -, single, -, -⟩
    · obtain ⟨-, rfl⟩ := List.cons.inj next
      have apart : ¬ (left.getLast? = some '\\' ∧ right.head? = some d) := fun split =>
        apart ⟨by simp [List.getLast?_cons, split.1], split.2⟩
      obtain ⟨front, back, rfl, again⟩ := ih apart behind
      refine ⟨d :: front, back, rfl, ?_⟩
      simp only [List.cons_append, unescape, and_self, ↓reduceIte, again, Option.map_some]
    · obtain ⟨e, others, same, differ⟩ := single rfl
      exact absurd (List.cons.inj same).1.symm differ
  | case5 d left open_ =>
    rcases unescape_cons_eq_some read with ⟨_, _, same, next, -, -⟩ | ⟨_, differ, -, -, -⟩
    · exact absurd ⟨same, (List.cons.inj next).1⟩ open_
    · exact absurd rfl differ
  | case6 c d left open_ differ ih =>
    rcases unescape_cons_eq_some read with ⟨_, _, same, next, -, -⟩ | ⟨inner, -, -, rfl, behind⟩
    · exact absurd ⟨same, (List.cons.inj next).1⟩ open_
    · obtain ⟨front, back, rfl, again⟩ := ih (by simpa using apart) behind
      have first : unescape quote (c :: (d :: left ++ (typed ++ right))) = _ :=
        unescape_cons differ fun same => ⟨d, _, rfl, fun next => open_ ⟨same, next⟩⟩
      refine ⟨c :: front, back, rfl, ?_⟩
      rw [List.cons_append, first, again]
      rfl

/-- A text without quotes and backslashes that is found in a string is found in its value. -/
theorem infix_of_read (plain : ∀ c ∈ typed, c ≠ quote ∧ c ≠ '\\') (filled : typed ≠ [])
    (read : unescape quote (left ++ (typed ++ right)) = some value) : typed <:+: value := by
  induction left using List.twoStepInduction generalizing value with
  | nil =>
    rw [List.nil_append, unescape_append plain, Option.map_eq_some_iff] at read
    obtain ⟨inner, -, rfl⟩ := read
    exact (List.prefix_append _ _).isInfix
  | singleton c =>
    rcases unescape_cons_eq_some read with ⟨later, _, -, next, -, -⟩ | ⟨inner, -, -, rfl, behind⟩
    · obtain ⟨d, others, rfl⟩ := List.exists_cons_of_ne_nil filled
      exact absurd (List.cons.inj next).1 (plain d (by simp)).1
    · have behind : unescape quote (typed ++ right) = some inner := behind
      rw [unescape_append plain, Option.map_eq_some_iff] at behind
      obtain ⟨inner, -, rfl⟩ := behind
      exact (List.prefix_append _ _).isInfix.trans (List.suffix_cons c _).isInfix
  | cons_cons c d left shorter ih =>
    rcases unescape_cons_eq_some read with ⟨later, inner, -, next, rfl, behind⟩ |
      ⟨inner, -, -, rfl, behind⟩
    · obtain ⟨-, rfl⟩ := List.cons.inj next
      exact (shorter behind).trans (List.suffix_cons _ _).isInfix
    · exact (ih d behind).trans (List.suffix_cons _ _).isInfix

private theorem prefix_of_unescape (plain : quote ∉ pattern) (read : unescape quote raw = some value)
    (found : pattern <+: value) : pattern <+: raw := by
  induction pattern generalizing raw value with
  | nil => exact List.nil_prefix
  | cons c pattern ih =>
    obtain ⟨differ, plain⟩ := not_or.mp (mt List.mem_cons.mpr plain)
    cases raw with
    | nil =>
      cases read
      exact absurd (List.prefix_nil.mp found) (List.cons_ne_nil c pattern)
    | cons d raw =>
      rcases unescape_cons_eq_some read with ⟨_, _, -, -, rfl, -⟩ | ⟨_, -, -, rfl, later⟩
      · exact absurd (List.cons_prefix_cons.mp found).1.symm differ
      · obtain ⟨rfl, shorter⟩ := List.cons_prefix_cons.mp found
        exact List.cons_prefix_cons.mpr ⟨rfl, ih plain later shorter⟩

/-- A text without quotes that is found in the value of a string is found in the string. -/
theorem infix_of_unescape (plain : quote ∉ pattern) (read : unescape quote raw = some value)
    (found : pattern <:+: value) : pattern <:+: raw := by
  obtain ⟨before, behind, same⟩ := found
  induction before generalizing raw value with
  | nil => exact (prefix_of_unescape plain read ⟨behind, same⟩).isInfix
  | cons c before ih =>
    cases raw with
    | nil =>
      cases read
      cases same
    | cons d raw =>
      rcases unescape_cons_eq_some read with ⟨_, _, -, rfl, rfl, later⟩ | ⟨_, -, -, rfl, later⟩
      · have inside := ih later (List.cons.inj same).2
        exact inside.trans ⟨[d, quote], [], by simp⟩
      · have inside := ih later (List.cons.inj same).2
        exact inside.trans (List.suffix_cons d raw).isInfix

end Template.Input

namespace Template

theorem placeholder_eq : ∃ tail, Settings.usual.placeholder.toList = 'G' :: tail ∧
    'G' ∉ tail ∧ 21 ≤ tail.length := by
  refine ⟨Settings.usual.placeholder.toList.tail, ?_, ?_, ?_⟩ <;> decide +kernel

theorem placeholder_plain : ∀ c ∈ Settings.usual.placeholder.toList,
    Input.isPathChar c = true ∧ c ≠ '\\' ∧ c ≠ '\'' ∧ c ≠ '"' := by
  have all : Settings.usual.placeholder.toList.all (fun c =>
      Input.isPathChar c && (c != '\\' && (c != '\'' && c != '"'))) = true := by
    decide +kernel
  simpa using all

end Template

end EmberAssist
