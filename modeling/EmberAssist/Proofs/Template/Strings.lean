import EmberAssist.Proofs.Template.TokenSource

/-! String literals as a code for strings. A string is written between quotes with a backslash before
every quote in it. Since nothing else is escaped, a backslash at its end would escape the closing quote;
so exactly the strings that do not end in one can be written. -/
namespace EmberAssist.Template

open Text

namespace Input

variable {quote c : Char} {value raw rest more after : List Char}

/-- A string as it is written between quotes: with a backslash before each of them. -/
def escape (quote : Char) (value : List Char) : List Char := replace [quote] ['\\', quote] value

@[simp] theorem escape_nil (quote : Char) : escape quote [] = [] := rfl

theorem escape_cons (quote c : Char) (rest : List Char) : escape quote (c :: rest) =
    if c = quote then '\\' :: quote :: escape quote rest else c :: escape quote rest := by
  have single : ([quote] : List Char).isEmpty = false := rfl
  simp only [escape, replace, single, Bool.false_eq_true, ↓reduceIte, replaceAfter, startsWith,
    List.isPrefixOf, Bool.and_true, beq_iff_eq, List.length_singleton, Nat.sub_self]
  by_cases same : quote = c
  · simp [same]
  · simp [same, Ne.symm same]

theorem escape_append (quote : Char) (value more : List Char) :
    escape quote (value ++ more) = escape quote value ++ escape quote more := by
  induction value with
  | nil => rfl
  | cons c rest ih =>
    rw [List.cons_append, escape_cons, escape_cons, ih]
    split <;> rfl

/-- What is written for a string with a character in it begins with no quote. -/
private theorem exists_escape_cons (plain : quote ≠ '\\') (c : Char) (rest : List Char) :
    ∃ d others, escape quote (c :: rest) = d :: others ∧ d ≠ quote := by
  rw [escape_cons]
  by_cases same : c = quote
  · exact ⟨'\\', _, by rw [if_pos same], plain.symm⟩
  · exact ⟨c, _, by rw [if_neg same], same⟩

/-- A string that does not end in a backslash is read back. -/
theorem unescape_escape (plain : quote ≠ '\\') (ends : value.getLast? ≠ some '\\') :
    unescape quote (escape quote value) = some value := by
  induction value with
  | nil => rfl
  | cons c rest ih =>
    have later : rest.getLast? ≠ some '\\' := by
      intro last
      simp [List.getLast?_cons, last] at ends
    by_cases same : c = quote
    · simp [escape_cons, same, unescape, ih later]
    · have followed : c = '\\' → ∃ d others, escape quote rest = d :: others ∧ d ≠ quote := by
        rintro rfl
        cases rest with
        | nil => exact absurd rfl ends
        | cons d others => exact exists_escape_cons plain d others
      rw [escape_cons, if_neg same, unescape_cons same followed, ih later, Option.map_some]

private theorem getLast?_cons_ne (ends : rest.getLast? ≠ some '\\') (single : rest = [] → c ≠ '\\') :
    (c :: rest).getLast? ≠ some '\\' := by
  cases rest with
  | nil => simpa using single rfl
  | cons d others => rwa [List.getLast?_cons_cons]

/-- Neither the value of a literal nor what stands between its quotes ends in a backslash. -/
theorem getLast?_of_unescape (plain : quote ≠ '\\') (read : unescape quote raw = some value) :
    raw.getLast? ≠ some '\\' ∧ value.getLast? ≠ some '\\' := by
  induction raw using unescape.induct quote generalizing value with
  | case1 =>
    cases read
    simp
  | case2 c ends => simp [unescape, ends] at read
  | case3 c differ =>
    simp only [unescape, differ, ↓reduceIte, Option.some.injEq] at read
    subst read
    simp [(not_or.mp differ).1]
  | case4 c d rest escaped ih =>
    obtain ⟨rfl, rfl⟩ := escaped
    simp only [unescape, and_self, ↓reduceIte, Option.map_eq_some_iff] at read
    obtain ⟨inner, later, rfl⟩ := read
    obtain ⟨raw, value⟩ := ih later
    exact ⟨getLast?_cons_ne (getLast?_cons_ne raw fun _ => plain) (by simp),
      getLast?_cons_ne value fun _ => plain⟩
  | case5 d rest open_ => simp [unescape, open_] at read
  | case6 c d rest open_ differ ih =>
    simp only [unescape, open_, differ, ↓reduceIte, Option.map_eq_some_iff] at read
    obtain ⟨inner, later, rfl⟩ := read
    obtain ⟨raw, value⟩ := ih later
    refine ⟨getLast?_cons_ne raw (by simp), getLast?_cons_ne value ?_⟩
    rintro rfl
    rcases unescape_cons_eq_some later with ⟨_, _, _, _, empty, _⟩ | ⟨_, _, _, empty, _⟩ <;>
      cases empty

/-- In what is written for a string there is a backslash before every quote. -/
theorem getLast?_before_quote (plain : quote ≠ '\\')
    (written : escape quote value = raw ++ quote :: more) : raw.getLast? = some '\\' := by
  induction value generalizing raw with
  | nil => simp at written
  | cons c rest ih =>
    rw [escape_cons] at written
    split at written
    · match raw with
      | [] => exact absurd (List.cons.inj written).1.symm plain
      | [b] => rw [← (List.cons.inj written).1, List.getLast?_singleton]
      | b :: d :: others =>
        have later := ih (List.cons.inj (List.cons.inj written).2).2
        simp [List.getLast?_cons, later]
    · rename_i differ
      match raw with
      | [] => exact absurd (List.cons.inj written).1 differ
      | b :: others =>
        have later := ih (List.cons.inj written).2
        simp [List.getLast?_cons, later]

/-- What is written for a string that ends in a backslash ends in one too. -/
private theorem getLast?_escape (plain : quote ≠ '\\') (ends : value.getLast? = some '\\') :
    (escape quote value).getLast? = some '\\' := by
  obtain ⟨front, rfl⟩ := List.getLast?_eq_some_iff.mp ends
  rw [escape_append, escape_cons, if_neg plain.symm, escape_nil, List.getLast?_concat]

/-- Behind what is written for a string that ends in a backslash no literal closes, nor before. -/
theorem length_lt_of_backslash (plain : quote ≠ '\\') (ends : value.getLast? = some '\\')
    (source : escape quote value ++ quote :: after = raw ++ quote :: rest)
    (closes : raw.getLast? ≠ some '\\') : (escape quote value).length < raw.length := by
  rcases List.append_eq_append_iff.mp source with ⟨between, rfl, _⟩ | ⟨between, written, same⟩
  · cases between with
    | nil =>
      rw [List.append_nil] at closes
      exact absurd (getLast?_escape plain ends) closes
    | cons d between => simp
  · cases between with
    | nil =>
      rw [List.append_nil] at written
      exact absurd (written ▸ getLast?_escape plain ends) closes
    | cons d between =>
      obtain ⟨rfl, -⟩ := List.cons.inj same
      exact absurd (getLast?_before_quote plain written) closes

end Input

open Input

variable {quote : Char}

private theorem readString_escape (plain : quote ≠ '\\') (value : String) (after : List Char)
    (offset : Nat) (ends : value.toList.getLast? ≠ some '\\') :
    readString ⟨offset, quote :: (escape quote value.toList ++ quote :: after)⟩ quote =
      .ok (.mk (some ⟨offset, offset + ((escape quote value.toList).length + 2)⟩)
          (.stringLiteral value value),
        ⟨offset + ((escape quote value.toList).length + 2), after⟩) := by
  refine readString_eq_ok.mpr ⟨value.toList, (stringTail?_eq_some plain).mpr
    ⟨escape quote value.toList, rfl, ?_, unescape_escape plain ends⟩, ?_⟩
  · simp only
    omega
  · rw [Node.between, String.ofList_toList]

/-- How a literal was read: up to a quote before which there is no backslash. -/
private theorem raw_of_readString (plain : quote ≠ '\\') {start closed : Input} {node : Node Span}
    (read : readString start quote = .ok (node, closed)) : ∃ raw value,
      start.rest.drop 1 = raw ++ quote :: closed.rest ∧
        closed.offset = start.offset + (raw.length + 2) ∧ raw.getLast? ≠ some '\\' ∧
        value.getLast? ≠ some '\\' ∧
        node.layer = .stringLiteral (String.ofList value) (String.ofList value) := by
  obtain ⟨value, tail, rfl⟩ := readString_eq_ok.mp read
  obtain ⟨raw, rest, offset, found⟩ := (stringTail?_eq_some plain).mp tail
  obtain ⟨open_, ends⟩ := getLast?_of_unescape plain found
  exact ⟨raw, value, rest, by omega, open_, ends, rfl⟩

/-- Literals in a quote spell the strings that do not end in a backslash. Such a string is read back
from what is written for it, whatever follows; behind what is written for another the literal does not
end; and no literal, of those read by itself or of those in a tree, is worth a string of the others. -/
structure SpellsStrings (quote : Char) : Prop where
  read (value : String) (after : List Char) (offset : Nat)
    (ends : value.toList.getLast? ≠ some '\\') :
    readString ⟨offset, quote :: (escape quote value.toList ++ quote :: after)⟩ quote =
      .ok (.mk (some ⟨offset, offset + ((escape quote value.toList).length + 2)⟩)
          (.stringLiteral value value),
        ⟨offset + ((escape quote value.toList).length + 2), after⟩)
  passed {value : String} {after : List Char} {offset : Nat} {node : Node Span} {closed : Input}
    (ends : value.toList.getLast? = some '\\')
    (read : readString ⟨offset, quote :: (escape quote value.toList ++ quote :: after)⟩ quote =
      .ok (node, closed)) :
    offset + ((escape quote value.toList).length + 2) < closed.offset
  image {start closed : Input} {node : Node Span}
    (read : readString start quote = .ok (node, closed)) :
    ∃ value : String, node.layer = .stringLiteral value value ∧
      value.toList.getLast? ≠ some '\\'
  held {text value spelling : String} {tree node : Node Range} {address : List Slot}
    (parsed : parse text = .ok tree) (found : tree.at? address = some node)
    (layer : node.layer = .stringLiteral value spelling) :
    spelling = value ∧ value.toList.getLast? ≠ some '\\'

/-- Every character but the backslash will do as a quote. -/
theorem spellsStrings (plain : quote ≠ '\\') : SpellsStrings quote where
  read := readString_escape plain
  passed := by
    intro value after offset node closed ends read
    obtain ⟨raw, -, source, place, open_, -⟩ := raw_of_readString plain read
    have longer := length_lt_of_backslash plain ends source open_
    simp only at place
    omega
  image := by
    intro start closed node read
    obtain ⟨-, value, -, -, -, ends, layer⟩ := raw_of_readString plain read
    exact ⟨_, layer, by rwa [String.toList_ofList]⟩
  held := by
    intro text value spelling tree node address parsed found layer
    obtain ⟨part, origin, rfl⟩ := parse_origin parsed found
    have string : (stringValue? part.layer).isSome := by
      rw [← stringValue?_map, ← Node.layer_mapRange, layer]
      rfl
    obtain ⟨before, other, raw, inner, behind, stands⟩ := origin.string string
    rw [stands.made, Node.layer_mapRange] at layer
    cases layer
    have single : other ≠ '\\' := by rcases stands.quoted with rfl | rfl <;> decide
    exact ⟨rfl, by rw [String.toList_ofList]; exact (getLast?_of_unescape single stands.read).2⟩

/-- Backslashes inside a string, one of them before the other quote, are no obstacle. -/
theorem spelled_with_backslashes : '"' ≠ '\\' ∧
    readString ⟨3, "\"a\\\\\"b\\'\" c".toList⟩ '"' =
      .ok (.mk (some ⟨3, 12⟩) (.stringLiteral "a\\\"b\\'" "a\\\"b\\'"), ⟨12, " c".toList⟩) :=
  ⟨by decide, (spellsStrings (by decide)).read "a\\\"b\\'" " c".toList 3 (by decide)⟩

end EmberAssist.Template
