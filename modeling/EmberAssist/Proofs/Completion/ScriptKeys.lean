import EmberAssist.Completion.PhraseKey
import EmberAssist.Proofs.Document.Wire
import EmberAssist.Proofs.Template.Offered
import EmberAssist.Script.Parser

/-! Where the keys of phrases are completed in scripts. The tree of a script, whatever reads it, counts bytes
of a text with a placeholder in it, a document counts characters, and an editor counts units of sixteen bits in
the text without one. All of them agree on the place behind the quote that opens the string under the cursor. -/
namespace EmberAssist

namespace Text

variable {chars front back : List Char} {begun : Nat} {byte : UInt8} {c : Char}

/-! ## Bytes and characters -/

theorem utf8_append (front back : List Char) : utf8 (front ++ back) = utf8 front ++ utf8 back :=
  List.flatMap_append

theorem utf8Length_cons (c : Char) (chars : List Char) :
    utf8Length (c :: chars) = utf8Width c + utf8Length chars := rfl

theorem utf8Length_append (front back : List Char) :
    utf8Length (front ++ back) = utf8Length front + utf8Length back := by
  induction front with
  | nil => simp [utf8Length]
  | cons c front ih => rw [List.cons_append, utf8Length_cons, utf8Length_cons, ih, Nat.add_assoc]

theorem length_utf8Char (c : Char) : (utf8Char c).length = utf8Width c := by
  simp only [utf8Char, utf8Width]
  split_ifs <;> rfl

theorem length_utf8 (chars : List Char) : (utf8 chars).length = utf8Length chars := by
  induction chars with
  | nil => rfl
  | cons c chars ih => rw [utf8, List.flatMap_cons, List.length_append, length_utf8Char, ← utf8, ih,
      utf8Length_cons]

theorem utf8Width_pos (c : Char) : 0 < utf8Width c := by
  simp only [utf8Width]
  split_ifs <;> decide

/-- The characters that end within the bytes of the first characters are these. -/
theorem charsWithin_utf8Length (front back : List Char) :
    charsWithin (utf8Length front) (front ++ back) = front.length := by
  induction front with
  | nil =>
    cases back with
    | nil => rfl
    | cons c back =>
      have filled := utf8Width_pos c
      rw [List.nil_append, charsWithin, if_neg (by simp [utf8Length]; omega)]
      rfl
  | cons c front ih =>
    rw [List.cons_append, charsWithin, utf8Length_cons, if_pos (Nat.le_add_right _ _),
      Nat.add_sub_cancel_left, ih, List.length_cons, Nat.add_comm]

/-- A byte of seven bits is a character by itself. -/
theorem utf8Char_of_ascii (member : byte ∈ utf8Char c) (ascii : byte.toNat < 0x80) :
    c.toNat = byte.toNat := by
  have valid : c.toNat < 0xD800 ∨ 0xDFFF < c.toNat ∧ c.toNat < 0x110000 := c.valid
  have same {n : Nat} (small : n < 0x100) : (UInt8.ofNat n).toNat = n :=
    UInt8.toNat_ofNat_of_lt' small
  simp only [utf8Char] at member
  split_ifs at member with one two three
  · obtain rfl := List.mem_singleton.mp member
    exact (same (by omega)).symm
  all_goals
    simp only [List.mem_cons, List.not_mem_nil, or_false] at member
    -- All bytes of a longer character have the eighth bit.
    rcases member with rfl | rfl | rfl | rfl <;> rw [same (by omega)] at ascii <;> omega

/-- A byte of seven bits cuts a text at a character. -/
theorem exists_cut_of_ascii (here : (utf8 chars)[begun]? = some byte) (ascii : byte.toNat < 0x80) :
    ∃ before c after, chars = before ++ c :: after ∧ utf8Length before = begun ∧
      c.toNat = byte.toNat ∧ utf8Width c = 1 := by
  induction chars generalizing begun with
  | nil => cases here
  | cons c rest ih =>
    rw [utf8, List.flatMap_cons, List.getElem?_append, length_utf8Char] at here
    split at here
    · rename_i inside
      have number := utf8Char_of_ascii (List.mem_of_getElem? here) ascii
      have single : utf8Width c = 1 := by
        rw [utf8Width]
        exact if_pos (number ▸ ascii)
      exact ⟨[], c, rest, rfl, by simp [utf8Length]; omega, number, single⟩
    · obtain ⟨before, found, after, rfl, length, told⟩ := ih here
      refine ⟨c :: before, found, after, rfl, ?_, told⟩
      rw [utf8Length_cons, length]
      omega

end Text

namespace Completion

open Script (ScriptString phraseArgument?)
open Template (insertPlaceholder)

/-! ## The string under the cursor -/

/-- What a tree reports of the string under a cursor, by the nodes that are around the cursor: the string begins
before the cursor, and with a quote. All offsets count bytes of the source. -/
structure Reports (source : List Char) (cursor : Nat) (around : List Script.Node) (begun : Nat) : Prop where
  node : ∃ text, around.head? = some (.leaf .string begun text)
  quoted : (Text.utf8 source)[begun]? = some 0x22 ∨ (Text.utf8 source)[begun]? = some 0x27
  before : begun < cursor

/-- The key of a phrase is the string under the cursor without its quotes. -/
theorem start_of_phraseArgument? {around : List Script.Node} {begun : Nat} {text : List Char}
    {argument : ScriptString} (node : around.head? = some (.leaf .string begun text))
    (found : phraseArgument? around = some argument) : argument.start = begun + 1 := by
  unfold phraseArgument? at found
  split at found
  · obtain rfl := Option.some.inj node
    simp only at found
    split at found
    · cases found
      rfl
    · cases found
  · cases found

variable {front typed back : List Char} {begun : Nat} {around : List Script.Node}

/-- The quote is a character of the text before the cursor, where nothing has been typed. -/
theorem Reports.exists_quote
    (reports : Reports (front ++ (typed ++ back)) (Text.utf8Length front) around begun) :
    ∃ before quote early, front = before ++ quote :: early ∧ (quote = '"' ∨ quote = '\'') ∧
      Text.utf8Length before = begun ∧ Text.utf8Width quote = 1 := by
  obtain ⟨byte, here, kind⟩ : ∃ byte : UInt8, (Text.utf8 (front ++ (typed ++ back)))[begun]? = some byte ∧
      (byte = 0x22 ∨ byte = 0x27) := by
    rcases reports.quoted with here | here
    · exact ⟨_, here, .inl rfl⟩
    · exact ⟨_, here, .inr rfl⟩
  have inFront : (Text.utf8 front)[begun]? = some byte := by
    rwa [Text.utf8_append, List.getElem?_append_left] at here
    rw [Text.length_utf8]
    exact reports.before
  have ascii : byte.toNat < 0x80 := by rcases kind with rfl | rfl <;> decide
  obtain ⟨before, quote, early, rfl, length, number, single⟩ := Text.exists_cut_of_ascii inFront ascii
  refine ⟨before, quote, early, rfl, ?_, length, single⟩
  rw [← Char.ofNat_toNat quote, number]
  rcases kind with rfl | rfl
  · exact .inl rfl
  · exact .inr rfl

/-! ## Keys -/

/-- A key in a script begins at the character where its string begins between the quotes. -/
theorem exists_argument_of_scriptKey? {scripts : Script.Reader} {language : Language} {placeholder : String}
    {document : Document} {p : Position} {key : TypedKey} (cut : Template.Cut document p front back)
    (typed : scriptKey? scripts language placeholder document p = some key) :
    let patched := front ++ (placeholder.toList ++ back)
    ∃ argument, phraseArgument? (scripts.around (scripts.tree language patched) (Text.utf8Length front)) =
        some argument ∧
      key.start = document.positionAt (Text.charsWithin argument.start patched) := by
  obtain ⟨argument, found, rfl⟩ := Option.map_eq_some_iff.mp typed
  rw [cut.insertPlaceholder, cut.here, List.take_left] at found
  refine ⟨argument, found, ?_⟩
  rw [← cut.insertPlaceholder]

/-- The key that is typed in a script is put behind the quote that opens the string under the cursor: the
text without the placeholder has that quote at the character whose byte is reported, the bytes up to it are
those of the characters up to it, and the editor's position behind it means the place behind it, which is not
behind the cursor. -/
theorem start_of_scriptKey? (scripts : Script.Reader) (language : Language) (placeholder : String)
    (document : Document) (p : Position) {begun : Nat} {key : TypedKey}
    (reports :
      let patched := insertPlaceholder document.chars (document.offsetAt p) placeholder.toList
      let cursor := Text.utf8Length (patched.take (document.offsetAt p))
      Reports patched cursor (scripts.around (scripts.tree language patched) cursor) begun)
    (typed : scriptKey? scripts language placeholder document p = some key) :
    let patched := insertPlaceholder document.chars (document.offsetAt p) placeholder.toList
    ∃ index quote, document.chars[index]? = some quote ∧ (quote = '"' ∨ quote = '\'') ∧
      Text.utf8Length (document.chars.take index) = begun ∧
      (Text.utf8 patched).take (begun + 1) = Text.utf8 (document.chars.take (index + 1)) ∧
      key.start = document.positionAt (index + 1 : Nat) ∧
      document.offsetAt key.start = index + 1 ∧ index + 1 ≤ document.offsetAt p := by
  obtain ⟨front, back, cut⟩ := Template.exists_cut document p
  obtain ⟨argument, found, start⟩ := exists_argument_of_scriptKey? cut typed
  simp only [cut.insertPlaceholder] at reports ⊢
  rw [cut.here, List.take_left] at reports
  obtain ⟨text, node⟩ := reports.node
  obtain ⟨before, quote, early, rfl, kind, rfl, single⟩ := reports.exists_quote
  have source : document.chars = before ++ quote :: (early ++ back) := by simp [cut.source]
  have here : document.chars[before.length]? = some quote := by simp [source]
  have upTo : document.chars.take (before.length + 1) = before ++ [quote] := by
    rw [source, List.take_append]
    simp
  have bytes : Text.utf8Length before + 1 = Text.utf8Length (before ++ [quote]) := by
    rw [Text.utf8Length_append, Text.utf8Length_cons, single]
    rfl
  have spelled : before ++ quote :: early ++ (placeholder.toList ++ back) =
      (before ++ [quote]) ++ (early ++ (placeholder.toList ++ back)) := by
    simp
  have start : key.start = document.positionAt (before.length + 1 : Nat) := by
    rw [start, start_of_phraseArgument? node found, bytes, spelled, Text.charsWithin_utf8Length,
      List.length_append, List.length_singleton]
  have inside : ¬ (quote = '\r' ∨ quote = '\n') := by rcases kind with rfl | rfl <;> decide
  refine ⟨before.length, quote, here, kind, ?_, ?_, start, ?_, ?_⟩
  · rw [source, List.take_left]
  · rw [spelled, upTo, Text.utf8_append, bytes, ← Text.length_utf8, List.take_left]
  · rw [start]
    exact (Document.wirePosition_behind here inside).2
  · rw [cut.here, List.length_append, List.length_cons]
    omega

/-- A comment of characters with one, two and four bytes stands before the line of the string. -/
theorem start_of_scriptKey?_behind_wide_characters :
    let document : Document := ⟨"", "/*é😀*/\r\nt('a')".toList, 0⟩
    let patched := "/*é😀*/\r\nt('aHere')".toList
    let around := Script.Reader.usual.around (Script.Reader.usual.tree .javascript patched) 16
    insertPlaceholder document.chars (document.offsetAt ⟨1, 4⟩) "Here".toList = patched ∧
      Reports patched 16 around 14 ∧
      ∃ key, scriptKey? .usual .javascript "Here" document ⟨1, 4⟩ = some key ∧ key.start = ⟨1, 3⟩ ∧
        document.offsetAt key.start = 11 ∧ document.chars[10]? = some '\'' := by
  intro document patched around
  have spelled : insertPlaceholder document.chars (document.offsetAt ⟨1, 4⟩) "Here".toList =
      patched := by decide +kernel
  have offset : document.offsetAt ⟨1, 4⟩ = 12 := by decide +kernel
  have cursor : Text.utf8Length (patched.take 12) = 16 := by decide +kernel
  have string : around.head?.map (fun node => (node.isLeaf .string, node.start, node.leafText?)) =
      some (true, 14, some "'aHere'".toList) := by
    decide +kernel
  have reports : Reports patched 16 around 14 := by
    refine ⟨⟨"'aHere'".toList, ?_⟩, by decide +kernel, by decide⟩
    obtain ⟨node, first, told⟩ := Option.map_eq_some_iff.mp string
    cases node with
    | leaf kind start text =>
      simp only [Script.Node.isLeaf, Script.Node.start, Script.Node.leafText?, Prod.mk.injEq,
        decide_eq_true_iff, Option.some.injEq] at told
      obtain ⟨rfl, rfl, rfl⟩ := told
      exact first
    | branch => cases told
  have found : (scriptKey? .usual .javascript "Here" document ⟨1, 4⟩).isSome = true := by
    decide +kernel
  obtain ⟨key, typed⟩ := Option.isSome_iff_exists.mp found
  have reported := reports
  simp only [around] at reported
  rw [← cursor, ← offset, ← spelled] at reported
  obtain ⟨index, quote, here, kind, -, -, start, means, before⟩ :=
    start_of_scriptKey? .usual .javascript "Here" document ⟨1, 4⟩ reported typed
  have single : ∀ index < 12, document.chars[index]? = some '"' ∨ document.chars[index]? = some '\'' →
      index = 10 := by decide +kernel
  rw [offset] at before
  obtain rfl : index = 10 := single index before (by rcases kind with rfl | rfl <;> simp [here])
  have place : document.positionAt (10 + 1 : Nat) = ⟨1, 3⟩ := by decide +kernel
  exact ⟨spelled, reports, key, typed, start.trans place, means, by decide⟩

end Completion

end EmberAssist
