import Mathlib.Data.List.TakeWhile
import EmberAssist.Document.Uri
import EmberAssist.Proofs.Path

/-! The way from a path to its URI and back. Each character is read back from its bytes, the bytes from
their escapes, and nothing in the escaped path is taken for a part of the URI. -/
namespace EmberAssist

namespace Text

variable {n k : Nat} {p : PendingChar} {rest : List UInt8}

/-! ## Bytes of a text -/

private theorem toNat_byte (small : n < 0x100) : (UInt8.ofNat n).toNat = n :=
  UInt8.toNat_ofNat_of_lt' small

private theorem leadByte_ascii (ascii : n < 0x80) : leadByte (.ofNat n) = .whole (Char.ofNat n) := by
  simp only [leadByte, toNat_byte (show n < 0x100 by omega), ascii, ↓reduceIte]

private theorem leadByte_two (long : 2 ≤ n) (short : n < 0x20) :
    leadByte (.ofNat (0xC0 + n)) = .pending ⟨1, 0x80, 0xBF, n⟩ := by
  simp only [leadByte, toNat_byte (show 0xC0 + n < 0x100 by omega)]
  rw [if_neg (by omega), if_neg (by omega), if_pos (by omega), Nat.add_sub_cancel_left]

private theorem leadByte_three (short : n < 0x10) : leadByte (.ofNat (0xE0 + n)) =
    .pending ⟨2, if n = 0 then 0xA0 else 0x80, if n = 0xD then 0x9F else 0xBF, n⟩ := by
  simp only [leadByte, toNat_byte (show 0xE0 + n < 0x100 by omega)]
  rw [if_neg (by omega), if_neg (by omega), if_neg (by omega), if_pos (by omega),
    Nat.add_sub_cancel_left]
  congr 3 <;> simp only [eq_iff_iff] <;> omega

private theorem leadByte_four (short : n < 5) : leadByte (.ofNat (0xF0 + n)) =
    .pending ⟨3, if n = 0 then 0x90 else 0x80, if n = 4 then 0x8F else 0xBF, n⟩ := by
  simp only [leadByte, toNat_byte (show 0xF0 + n < 0x100 by omega)]
  rw [if_neg (by omega), if_neg (by omega), if_neg (by omega), if_neg (by omega),
    if_pos (by omega), Nat.add_sub_cancel_left]
  congr 3 <;> simp only [eq_iff_iff] <;> omega

private theorem charsFrom_lead {byte : UInt8} (lead : leadByte byte = .pending p) :
    charsFrom none (byte :: rest) = charsFrom (some p) rest := by
  simp only [charsFrom, lead]

/-- The byte that ends a character. -/
private theorem charsFrom_last (small : k < 0x40) (last : p.remaining = 1) (low : p.low ≤ 0x80 + k)
    (high : 0x80 + k ≤ p.high) : charsFrom (some p) (.ofNat (0x80 + k) :: rest) =
      some (Char.ofNat (p.value * 0x40 + k)) :: charsFrom none rest := by
  simp only [charsFrom, toNat_byte (show 0x80 + k < 0x100 by omega), last, low, high, decide_true,
    Bool.and_self, ↓reduceIte, Nat.le_refl, Nat.add_sub_cancel_left]

/-- A byte inside a character. -/
private theorem charsFrom_inner (small : k < 0x40) (inner : 1 < p.remaining) (low : p.low ≤ 0x80 + k)
    (high : 0x80 + k ≤ p.high) : charsFrom (some p) (.ofNat (0x80 + k) :: rest) =
      charsFrom (some ⟨p.remaining - 1, 0x80, 0xBF, p.value * 0x40 + k⟩) rest := by
  simp only [charsFrom, toNat_byte (show 0x80 + k < 0x100 by omega), low, high, decide_true,
    Bool.and_self, ↓reduceIte, Nat.not_le.mpr inner, Nat.add_sub_cancel_left]

/-- A character is read back from its bytes. The numbers of characters leave out a gap, so that the
second byte is within the bounds that the first one sets. -/
theorem charsFrom_utf8Char (c : Char) (rest : List UInt8) :
    charsFrom none (utf8Char c ++ rest) = some c :: charsFrom none rest := by
  have valid : c.toNat < 0xD800 ∨ 0xDFFF < c.toNat ∧ c.toNat < 0x110000 := c.valid
  have same := Char.ofNat_toNat c
  simp only [utf8Char]
  generalize c.toNat = n at valid same
  subst same
  split
  · rename_i ascii
    simp only [List.singleton_append, charsFrom, leadByte_ascii ascii]
  split
  · rw [List.cons_append, charsFrom_lead (leadByte_two (by omega) (by omega)), List.singleton_append,
      charsFrom_last (Nat.mod_lt _ (by decide)) rfl (by simp) (by simp; omega)]
    simp only [Nat.div_add_mod']
  split
  · rw [List.cons_append, charsFrom_lead (leadByte_three (by omega)), List.cons_append,
      charsFrom_inner (Nat.mod_lt _ (by decide)) (by simp) (by simp; split <;> omega)
        (by simp; split <;> omega),
      List.singleton_append, charsFrom_last (Nat.mod_lt _ (by decide)) rfl (by simp) (by simp; omega),
      show (n / 0x1000 * 0x40 + n / 0x40 % 0x40) * 0x40 + n % 0x40 = n by omega]
  · rw [List.cons_append, charsFrom_lead (leadByte_four (by omega)), List.cons_append,
      charsFrom_inner (Nat.mod_lt _ (by decide)) (by simp) (by simp; split <;> omega)
        (by simp; split <;> omega),
      List.cons_append, charsFrom_inner (Nat.mod_lt _ (by decide)) (by simp) (by simp)
        (by simp; omega),
      List.singleton_append, charsFrom_last (Nat.mod_lt _ (by decide)) rfl (by simp) (by simp; omega),
      show ((n / 0x40000 * 0x40 + n / 0x1000 % 0x40) * 0x40 + n / 0x40 % 0x40) * 0x40 + n % 0x40 = n by
        omega]

/-- A text is read back from its bytes. -/
theorem decodeLossy_utf8 (chars : List Char) : decodeLossy (utf8 chars) = chars := by
  have read : charsFrom none (utf8 chars) = chars.map some := by
    induction chars with
    | nil => simp [utf8, charsFrom]
    | cons c chars ih =>
      simp only [utf8, List.flatMap_cons, List.map_cons, charsFrom_utf8Char] at ih ⊢
      rw [ih]
  simp [decodeLossy, read, Function.comp_def]

end Text

namespace Uri

open Text

variable {c : Char} {chars : List Char}

/-! ## Escapes -/

private theorem hexValue?_hexDigit : ∀ n < 16, hexValue? (hexDigit n) = some n := by decide

private theorem hexDigit_plain : ∀ n < 16, isPlain (hexDigit n) = true := by decide

theorem escapedBytes_escapeByte (byte : UInt8) (rest : List Char) :
    escapedBytes (escapeByte byte ++ rest) = byte :: escapedBytes rest := by
  have bound := byte.toNat_lt
  have high := hexValue?_hexDigit (byte.toNat / 16) (by omega)
  have low := hexValue?_hexDigit (byte.toNat % 16) (by omega)
  simp only [escapeByte, List.cons_append, List.nil_append, escapedBytes, high, low, Nat.div_add_mod,
    UInt8.ofNat_toNat]

theorem escapedBytes_escapeBytes (bytes : List UInt8) (rest : List Char) :
    escapedBytes (bytes.flatMap escapeByte ++ rest) = bytes ++ escapedBytes rest := by
  induction bytes with
  | nil => rfl
  | cons byte bytes ih =>
    rw [List.flatMap_cons, List.append_assoc, escapedBytes_escapeByte, ih, List.cons_append]

/-- A character that stands for itself, or the beginning of an escape. -/
private theorem plain_or_percent_of_mem_escape (member : c ∈ escape chars) :
    isPlain c = true ∨ c = '%' := by
  obtain ⟨written, -, spelled⟩ := List.mem_flatMap.mp member
  split at spelled
  · rename_i plain
    rw [List.mem_singleton.mp spelled]
    exact .inl plain
  · obtain ⟨byte, -, digit⟩ := List.mem_flatMap.mp spelled
    have bound := byte.toNat_lt
    simp only [escapeByte, List.mem_cons, List.not_mem_nil, or_false] at digit
    rcases digit with rfl | rfl | rfl
    · exact .inr rfl
    · exact .inl (hexDigit_plain _ (by omega))
    · exact .inl (hexDigit_plain _ (by omega))

/-- Characters that stand for themselves are ASCII, and none of those that end the path of a URI or that
are dropped from it. -/
private theorem bounds_of_isPlain (plain : isPlain c = true) :
    c.toNat < 0x80 ∧ 0x20 < c.toNat ∧ c ≠ '#' ∧ c ≠ '?' ∧ c ≠ '%' := by
  have bounds : 0x20 < c.toNat ∧ c.toNat < 0x80 ∧ c.toNat ≠ 0x23 ∧ c.toNat ≠ 0x3F ∧ c.toNat ≠ 0x25 := by
    delta isPlain Char.isAlphanum Char.isAlpha Char.isUpper Char.isLower Char.isDigit at plain
    simp only [Bool.or_eq_true, Bool.and_eq_true, decide_eq_true_eq, List.contains_iff_mem,
      List.mem_cons, List.not_mem_nil, or_false, UInt32.le_iff_toNat_le, ge_iff_le] at plain
    rcases plain with ((plain | plain) | plain) | rfl | rfl | rfl | rfl | rfl
    all_goals first | decide | (simp at plain; omega)
  refine ⟨bounds.2.1, bounds.1, ?_, ?_, ?_⟩ <;> rintro rfl <;> simp at bounds

private theorem escapedBytes_plain (plain : isPlain c = true) (rest : List Char) :
    escapedBytes (c :: rest) = .ofNat c.toNat :: escapedBytes rest := by
  obtain ⟨-, -, -, -, other⟩ := bounds_of_isPlain plain
  rw [escapedBytes]
  rintro a b later rfl
  exact absurd rfl other

/-- The bytes of a text are read from the text as it is escaped. -/
theorem escapedBytes_escape (chars : List Char) : escapedBytes (escape chars) = utf8 chars := by
  induction chars with
  | nil => rfl
  | cons c chars ih =>
    simp only [escape, utf8, List.flatMap_cons] at ih ⊢
    split
    · rename_i plain
      have ascii := (bounds_of_isPlain plain).1
      rw [List.singleton_append, escapedBytes_plain plain, ih]
      simp only [utf8Char, ascii, ↓reduceIte, List.singleton_append]
    · rw [escapedBytes_escapeBytes, ih]

/-- What can stand in an escaped text. -/
private theorem bounds_of_mem_escape (member : c ∈ escape chars) :
    c.toNat < 0x80 ∧ 0x20 < c.toNat ∧ c ≠ '#' ∧ c ≠ '?' := by
  rcases plain_or_percent_of_mem_escape member with plain | rfl
  · obtain ⟨ascii, shown, ends, asks, -⟩ := bounds_of_isPlain plain
    exact ⟨ascii, shown, ends, asks⟩
  · decide

private theorem unescapeAfter_ascii (pending : List Char) (ascii : ∀ c ∈ chars, c.toNat < 0x80) :
    unescapeAfter pending chars = decodeLossy (escapedBytes (pending.reverse ++ chars)) := by
  induction chars generalizing pending with
  | nil => simp [unescapeAfter]
  | cons c chars ih =>
    rw [unescapeAfter, if_pos (ascii c List.mem_cons_self),
      ih _ fun c member => ascii c (List.mem_cons_of_mem _ member)]
    simp

/-- An escaped text is read back. -/
theorem unescape_escape (chars : List Char) : unescape (escape chars) = chars := by
  rw [unescape, unescapeAfter_ascii [] fun c member => (bounds_of_mem_escape member).1,
    List.reverse_nil, List.nil_append, escapedBytes_escape, decodeLossy_utf8]

/-! ## URIs of paths -/

variable {path : FilePath}

private theorem toList_scheme : "file://".toList = ['f', 'i', 'l', 'e', ':', '/', '/'] := by decide

private theorem toList_ofFilePath (path : FilePath) :
    (ofFilePath path).toList = "file://".toList ++ escape path.text.toList := String.toList_ofList

private theorem escape_slash (rest : List Char) : escape ('/' :: rest) = '/' :: escape rest := rfl

private theorem splitScheme_file (rest : List Char) :
    splitScheme ('f' :: 'i' :: 'l' :: 'e' :: ':' :: rest) = (['f', 'i', 'l', 'e'], rest) := rfl

private theorem splitHost_none (rest : List Char) :
    splitHost ('/' :: '/' :: '/' :: rest) = ([], '/' :: rest) := rfl

/-- The path of a file is read back from its URI. -/
theorem toFilePath?_ofFilePath (absolute : path.isAbsolute = true) :
    toFilePath? (ofFilePath path) = .ok (some path.text) := by
  have begun : ∃ rest, path.text.toList = '/' :: rest := by
    rw [FilePath.toList_text absolute]
    cases begins : path.root with
    | working => simp [FilePath.isAbsolute, begins] at absolute
    | root | doubleRoot => exact ⟨_, rfl⟩
  obtain ⟨rest, spelled⟩ := begun
  have written : (ofFilePath path).toList =
      'f' :: 'i' :: 'l' :: 'e' :: ':' :: '/' :: '/' :: '/' :: escape rest := by
    rw [toList_ofFilePath, spelled, escape_slash, toList_scheme]
    rfl
  have whole : ∀ c ∈ escape rest, isDropped c = false := by
    intro c member
    have shown := (bounds_of_mem_escape member).2.1
    simp only [isDropped, Bool.or_eq_false_iff, beq_eq_false_iff_ne]
    refine ⟨⟨?_, ?_⟩, ?_⟩ <;> rintro rfl <;> exact absurd shown (by decide)
  have kept : ((ofFilePath path).toList.dropWhile isControlOrSpace).filter (!isDropped ·) =
      'f' :: 'i' :: 'l' :: 'e' :: ':' :: '/' :: '/' :: '/' :: escape rest := by
    rw [written, List.dropWhile_cons_of_neg (by decide), List.filter_eq_self]
    simp only [List.mem_cons, forall_eq_or_imp]
    exact ⟨rfl, rfl, rfl, rfl, rfl, rfl, rfl, rfl, fun c member => by simp [whole c member]⟩
  have unended : ('/' :: escape rest).takeWhile (fun c => c != '#' && c != '?') =
      '/' :: escape rest := by
    rw [List.takeWhile_eq_self_iff]
    intro c member
    rcases List.mem_cons.mp member with rfl | member
    · rfl
    · obtain ⟨-, -, ends, asks⟩ := bounds_of_mem_escape member
      simp [ends, asks]
  have back : unescape ('/' :: escape rest) = path.text.toList := by
    rw [← escape_slash, unescape_escape, spelled]
  simp only [toFilePath?, kept, splitScheme_file, splitHost_none]
  rw [unended, back, String.ofList_toList]
  rfl

/-- No two paths have the same URI. -/
theorem ofFilePath_injective {other : FilePath} (absolute : path.isAbsolute = true)
    (absolute' : other.isAbsolute = true) (same : ofFilePath path = ofFilePath other) : path = other := by
  have read := toFilePath?_ofFilePath absolute
  rw [same, toFilePath?_ofFilePath absolute'] at read
  have written : other.text = path.text := Option.some.inj (Except.ok.inj read)
  rw [← FilePath.ofString_text path, ← FilePath.ofString_text other, written]

/-- The URI of a path stands for the path. This is so for whatever is written with a slash in front: a second slash
is not taken for the beginning of a host, and no character for the end of the path or for an escape. No other path
has the same URI. -/
theorem toFilePath?_ofString {text : String} (slashed : text.toList.head? = some '/') :
    let path := FilePath.ofString text
    toFilePath? (ofFilePath path) = .ok (some path.text) ∧
      ∀ other : String, other.toList.head? = some '/' → ofFilePath (.ofString other) = ofFilePath path →
        FilePath.ofString other = path := by
  intro path
  have absolute : path.isAbsolute = true := FilePath.isAbsolute_ofString slashed
  refine ⟨toFilePath?_ofFilePath absolute, fun other slashed' same => ?_⟩
  exact ofFilePath_injective (FilePath.isAbsolute_ofString slashed') absolute same

/-- Characters that mean something in a URI, or cannot stand in one, are read back like all others. -/
theorem toFilePath?_ofString_of_unusual_characters :
    let text := "//p/a b%41?x#y;z:[1]\t\n/é😀.hbs"
    text.toList.head? = some '/' ∧
      ofFilePath (.ofString text) = "file:////p/a%20b%2541%3Fx%23y%3Bz%3A%5B1%5D%09%0A/%C3%A9%F0%9F%98%80.hbs" ∧
      toFilePath? (ofFilePath (.ofString text)) = .ok (some text) := by
  intro text
  have slashed : text.toList.head? = some '/' := by decide
  have written : (FilePath.ofString text).text = text := by decide +kernel
  refine ⟨slashed, by decide +kernel, ?_⟩
  rw [(toFilePath?_ofString slashed).1, written]

end Uri

end EmberAssist
