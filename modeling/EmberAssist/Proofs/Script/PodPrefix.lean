import EmberAssist.Proofs.Script.Traversal
import EmberAssist.Script.Parser

/-! The prefix of pods that a script configures. Of several nodes that configure one, the first in the order
of the source counts, however deep it stands and whatever comes before it. -/
namespace EmberAssist.Script

variable {root node key set : Node} {value : List Char}

theorem Node.isBranch_iff {kind : BranchKind} :
    node.isBranch kind = true ↔ ∃ start stop children, node = .branch kind start stop children := by
  cases node with
  | leaf => simp [Node.isBranch]
  | branch => simp [Node.isBranch, eq_comm]

/-! ## What nodes configure -/

/-- A node sets a property to a value: as a property of an object, or by an assignment to a property. -/
inductive Sets : Node → Node → Node → Prop where
  | pair {node key value : Node} (kind : node.isBranch .pair)
      (named : node.inField? .key = some key) (given : node.inField? .value = some value) :
      Sets node key value
  | assignment {node target key value : Node} (kind : node.isBranch .assignment)
      (left : node.inField? .left = some target) (member : target.isBranch .member)
      (named : target.inField? .property = some key) (given : node.inField? .right = some value) :
      Sets node key value

/-- The name of a property that is written as a string is what stands between the quotes, and that of
another leaf is its text. What is put together from leaves, as a computed name in brackets, is no name. -/
inductive Names : Node → List Char → Prop where
  | quoted {start : Nat} {text : List Char} : Names (.leaf .string start text) (withoutQuotes text)
  | bare {kind : LeafKind} {start : Nat} {text : List Char} (unquoted : kind ≠ .string) :
      Names (.leaf kind start text) text

/-- A node configures a prefix of pods: it sets the property of that name to a string. -/
def Configures (node : Node) (value : List Char) : Prop :=
  ∃ key start text, Sets node key (.leaf .string start text) ∧ Names key podPrefixName ∧
    value = withoutQuotes text

theorem configured?_eq_some_iff : configured? node = some (key, set) ↔ Sets node key set := by
  constructor
  · intro found
    unfold configured? at found
    split at found
    · obtain ⟨_, named, found⟩ := Option.bind_eq_some_iff.mp found
      obtain ⟨_, given, found⟩ := Option.bind_eq_some_iff.mp found
      cases found
      exact .pair (by simp [Node.isBranch]) named given
    · obtain ⟨target, left, found⟩ := Option.bind_eq_some_iff.mp found
      split at found
      · rename_i member
        obtain ⟨_, named, found⟩ := Option.bind_eq_some_iff.mp found
        obtain ⟨_, given, found⟩ := Option.bind_eq_some_iff.mp found
        cases found
        exact .assignment (by simp [Node.isBranch]) left member named given
      · cases found
    · cases found
  · intro sets
    cases sets with
    | pair kind named given =>
      obtain ⟨start, stop, children, rfl⟩ := Node.isBranch_iff.mp kind
      simp [configured?, named, given]
    | assignment kind left member named given =>
      obtain ⟨start, stop, children, rfl⟩ := Node.isBranch_iff.mp kind
      simp [configured?, left, member, named, given]

theorem exists_of_asString? {string : ScriptString} (quoted : node.asString? = some string) :
    ∃ start text, node = .leaf .string start text ∧ string.value = withoutQuotes text := by
  unfold Node.asString? at quoted
  split at quoted
  · cases quoted
    exact ⟨_, _, rfl, rfl⟩
  · cases quoted

theorem propertyName?_eq_some_iff : propertyName? node = some value ↔ Names node value := by
  constructor
  · intro named
    unfold propertyName? at named
    split at named
    · rename_i string quoted
      obtain ⟨start, text, rfl, same⟩ := exists_of_asString? quoted
      cases named
      exact same ▸ .quoted
    · rename_i other
      cases node with
      | branch => cases named
      | leaf kind start text =>
        cases named
        refine .bare fun quoted => ?_
        subst quoted
        cases other
  · intro names
    cases names with
    | quoted => rfl
    | @bare kind start text unquoted =>
      cases kind with
      | string => exact absurd rfl unquoted
      | _ => rfl

theorem podPrefixAt?_eq_some_iff : podPrefixAt? node = some value ↔ Configures node value := by
  constructor
  · intro found
    obtain ⟨⟨key, set⟩, sets, found⟩ := Option.bind_eq_some_iff.mp found
    obtain ⟨string, quoted, found⟩ := Option.bind_eq_some_iff.mp found
    obtain ⟨named, told⟩ := Option.ite_none_right_eq_some.mp found
    cases told
    obtain ⟨start, text, rfl, same⟩ := exists_of_asString? quoted
    exact ⟨key, start, text, configured?_eq_some_iff.mp sets,
      propertyName?_eq_some_iff.mp (eq_of_beq named), same⟩
  · rintro ⟨key, start, text, sets, names, rfl⟩
    simp [podPrefixAt?, configured?_eq_some_iff.mpr sets, propertyName?_eq_some_iff.mpr names,
      Node.asString?]

theorem podPrefixAt?_eq_none_iff : podPrefixAt? node = none ↔ ∀ value, ¬ Configures node value := by
  simp only [Option.eq_none_iff_forall_ne_some, ← podPrefixAt?_eq_some_iff, ne_eq]

/-! ## Which of them counts -/

/-- How the tree of a script is searched for a prefix of pods. The nodes are visited as by recursion: each
place of the tree once, and in order. The prefix found is the one that is configured at the first place at
which one is configured at all, and none is found exactly if none is configured anywhere. -/
structure SearchedInOrder (root : Node) : Prop where
  recursive : walk root = root.preorder
  visits : Visits root (walk root) root.places
  first (value : List Char) : podPrefix? root = some value ↔
    ∃ place node, root.at? place = some node ∧ Configures node value ∧
      ∀ earlier < place, ∀ other, root.at? earlier = some other → ∀ given, ¬ Configures other given
  nothing : podPrefix? root = none ↔
    ∀ place node, root.at? place = some node → ∀ value, ¬ Configures node value

/-- Every tree is searched in the order of the source for the first prefix of pods. -/
theorem searchedInOrder (root : Node) : SearchedInOrder root where
  recursive := walk_eq_preorder root
  visits := visits_walk root
  first value := by
    simp only [podPrefix?, findSome?_walk_eq_some_iff, podPrefixAt?_eq_some_iff,
      podPrefixAt?_eq_none_iff]
  nothing := by
    simp only [podPrefix?, findSome?_walk_eq_none_iff, podPrefixAt?_eq_none_iff]

/-- An assignment of something else than a string is passed over, and one that stands within it counts
before one behind it. -/
example : podPrefix? (parse .javascript
    "e.podModulePrefix = f(e.podModulePrefix = 'p/q'); e.podModulePrefix = 'r'".toList) =
    some "p/q".toList := by
  decide +kernel

end EmberAssist.Script
