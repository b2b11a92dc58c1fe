import EmberAssist.Phrase.Flatten

/-! The keys of phrases. A phrase is a leaf of nested mappings, and its key spells the way to it with dots
between the keys on the way. Empty keys before the first one that is not empty are left out with their dots,
so that ways which differ in them lead to the same key. -/
namespace EmberAssist.Phrase

open Data (Scalar Value ValueFault)

/-! ## Leaves -/

mutual

/-- The leaves of a mapping in the order of the document, each with the keys on the way to it. -/
def leaves : List (Scalar × Value) → List (List Scalar × Value)
  | [] => []
  | (key, value) :: entries =>
    (leavesOf value).map (fun (way, leaf) => (key :: way, leaf)) ++ leaves entries

/-- The leaves of a value: a value that is neither a mapping nor nothing is one itself. -/
def leavesOf : Value → List (List Scalar × Value)
  | .map entries => leaves entries
  | .scalar .null => []
  | leaf => [([], leaf)]

end

mutual

/-- What keeps the phrases of a mapping from being told, in the order of the document: keys and leaves that
cannot be written, and mappings inside themselves. -/
def obstacles : List (Scalar × Value) → List ValueFault
  | [] => []
  | (key, value) :: entries =>
    (if key.writable then [] else [.unwritableNumber]) ++ obstaclesIn value ++ obstacles entries

/-- What keeps the phrases of a value from being told. -/
def obstaclesIn : Value → List ValueFault
  | .map entries => obstacles entries
  | .enclosingMap => [.endlessMapping]
  | .scalar .null => []
  | leaf => if leaf.writable then [] else [.unwritableNumber]

end

/-- An answer, unless there are obstacles: then the first of them. -/
def unlessAny {α : Type} (obstacles : List ValueFault) (answer : α) : Except ValueFault α :=
  match obstacles with
  | [] => .ok answer
  | fault :: _ => .error fault

theorem unlessAny_map {α β : Type} (faults : List ValueFault) (a : α) (f : α → β) :
    (do return f (← unlessAny faults a)) = unlessAny faults (f a) := by
  cases faults <;> rfl

theorem unlessAny_append {α β γ : Type} (first second : List ValueFault) (a : α) (b : β) (f : α → β → γ) :
    (do return f (← unlessAny first a) (← unlessAny second b)) = unlessAny (first ++ second) (f a b) := by
  cases first <;> cases second <;> rfl

mutual

theorem flatten_eq (group : List Char) : (entries : List (Scalar × Value)) → flatten group entries =
    unlessAny (obstacles entries) ((leaves entries).map fun (way, leaf) => (way.foldl keyIn group, leaf.shown))
  | [] => rfl
  | (key, value) :: entries => by
    have first := flattenValue_eq (keyIn group key) value
    have rest := flatten_eq group entries
    simp only [flatten, first, rest, unlessAny_append]
    simp only [obstacles, leaves, List.map_append, List.map_map]
    cases key.writable <;> rfl

theorem flattenValue_eq (key : List Char) (value : Value) : flattenValue key value =
    unlessAny (obstaclesIn value) ((leavesOf value).map fun (way, leaf) => (way.foldl keyIn key, leaf.shown)) := by
  cases value with
  | map entries =>
    rw [flattenValue, obstaclesIn, leavesOf]
    exact flatten_eq key entries
  | enclosingMap => rfl
  | scalar s =>
    cases s with
    | null => rfl
    | _ =>
      simp only [flattenValue, obstaclesIn, leavesOf]
      split <;> rfl
  | _ =>
    simp only [flattenValue, obstaclesIn, leavesOf]
    split <;> rfl

end

/-! ## Keys -/

/-- The way to a leaf as a key: the keys on it with dots between them, without those that are empty before the
first one that is not. -/
def spelled (way : List Scalar) : List Char :=
  Text.join ['.'] ((way.map Scalar.shown).dropWhile List.isEmpty)

/-- The way to a leaf, written out in full. -/
def spelledInFull (way : List Scalar) : List Char := Text.join ['.'] (way.map Scalar.shown)

theorem foldl_keyIn_of_ne_nil {group : List Char} (filled : group ≠ []) (way : List Scalar) :
    way.foldl keyIn group = Text.join ['.'] (group :: way.map Scalar.shown) := by
  induction way generalizing group with
  | nil => rfl
  | cons key way ih =>
    have inner : keyIn group key = group ++ '.' :: key.shown := if_neg (by simpa using filled)
    rw [List.foldl_cons, inner, ih (by simp), List.map_cons]
    cases way <;> simp [Text.join]

theorem foldl_keyIn (way : List Scalar) : way.foldl keyIn [] = spelled way := by
  induction way with
  | nil => rfl
  | cons key way ih =>
    have outer : keyIn [] key = key.shown := rfl
    rw [List.foldl_cons, outer, spelled, List.map_cons, List.dropWhile_cons]
    cases shown : key.shown with
    | nil => exact ih
    | cons c rest => simpa using foldl_keyIn_of_ne_nil (List.cons_ne_nil c rest) way

theorem length_join_dropWhile (pieces : List (List Char)) :
    (Text.join ['.'] (pieces.dropWhile List.isEmpty)).length ≤ (Text.join ['.'] pieces).length := by
  induction pieces with
  | nil => exact Nat.le_refl _
  | cons piece pieces ih =>
    rw [List.dropWhile_cons]
    split
    · refine Nat.le_trans ih ?_
      cases pieces with
      | nil => exact Nat.zero_le _
      | cons next pieces =>
        simp only [Text.join, List.length_append]
        omega
    · exact Nat.le_refl _

/-- A key spells the way in full unless the first of several keys on it is empty. -/
theorem spelled_eq_iff (way : List Scalar) : spelled way = spelledInFull way ↔
    ∀ first second rest, way = first :: second :: rest → first.shown ≠ [] := by
  match way with
  | [] => exact iff_of_true rfl nofun
  | [key] =>
    refine iff_of_true ?_ nofun
    rw [spelled, spelledInFull, List.map_singleton]
    cases key.shown <;> rfl
  | first :: second :: rest =>
    rw [spelled, spelledInFull, List.map_cons, List.dropWhile_cons]
    cases shown : first.shown with
    | nil =>
      refine iff_of_false (fun same => ?_) fun filled => filled first second rest rfl shown
      have shorter := length_join_dropWhile ((second :: rest).map Scalar.shown)
      have longer : (Text.join ['.'] (((second :: rest).map Scalar.shown).dropWhile List.isEmpty)).length =
          (Text.join ['.'] ((second :: rest).map Scalar.shown)).length + 1 := congrArg List.length same
      omega
    | cons c chars =>
      refine iff_of_true rfl ?_
      rintro _ _ _ ⟨rfl⟩
      simp [shown]

theorem flatten_nil (entries : List (Scalar × Value)) : flatten [] entries =
    unlessAny (obstacles entries)
      ((leaves entries).map fun (way, leaf) => (spelled way, leaf.shown)) := by
  rw [flatten_eq]
  simp only [foldl_keyIn]

/-- The phrases of a document are its leaves in their order, each with its text and with a key that spells the
way to it, unless something cannot be told: then the first such thing is the fault. The way is spelled in full
unless it begins with an empty key and goes on. -/
theorem flatten_spells (entries : List (Scalar × Value)) :
    flatten [] entries = unlessAny (obstacles entries)
      ((leaves entries).map fun (way, leaf) => (spelled way, leaf.shown)) ∧
    ∀ way, spelled way = spelledInFull way ↔
      ∀ first second rest, way = first :: second :: rest → first.shown ≠ [] :=
  ⟨flatten_nil entries, spelled_eq_iff⟩

/-- A phrase below an empty key has the key of one that is not below it. -/
theorem flatten_below_empty_key :
    let phrase := (Scalar.text ['a'], Value.scalar (.text ['x']))
    flatten [] [(.text [], .map [phrase])] = .ok [(['a'], ['x'])] ∧
      leaves [(.text [], .map [phrase])] = [([.text [], .text ['a']], .scalar (.text ['x']))] ∧
      spelledInFull [.text [], .text ['a']] = ['.', 'a'] :=
  ⟨rfl, rfl, rfl⟩

end EmberAssist.Phrase
