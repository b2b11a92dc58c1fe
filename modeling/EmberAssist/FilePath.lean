import EmberAssist.Text.Search

/-! Paths of files. A path is kept in normal form: neither empty segments nor dots that stand for
the same directory, so that equal paths are equal values. -/
namespace EmberAssist

/-- Where a path begins: in the working directory, at the root, or at the root with two slashes,
which systems may treat apart. -/
inductive PathRoot where
  | working
  | root
  | doubleRoot
deriving DecidableEq, Repr, Inhabited

/-- The slashes that a path begins with. -/
def PathRoot.text : PathRoot → String
  | working => ""
  | root => "/"
  | doubleRoot => "//"

namespace FilePath

/-- A segment that leads a step down or, as two dots, up: it is neither empty nor a dot. -/
structure IsSegment (part : String) : Prop where
  filled : part ≠ ""
  moving : part ≠ "."
  single : '/' ∉ part.toList

instance (part : String) : Decidable (IsSegment part) :=
  decidable_of_iff (part ≠ "" ∧ part ≠ "." ∧ '/' ∉ part.toList)
    ⟨fun ⟨filled, moving, single⟩ => ⟨filled, moving, single⟩,
      fun ⟨filled, moving, single⟩ => ⟨filled, moving, single⟩⟩

end FilePath

/-- A path as its segments below where it begins, all of which lead somewhere. -/
@[ext]
structure FilePath where
  root : PathRoot
  parts : List String
  normal : ∀ part ∈ parts, FilePath.IsSegment part
deriving DecidableEq, Repr

namespace FilePath

/-- The place where paths begin in one of the three ways. -/
def top (begun : PathRoot) : FilePath := ⟨begun, [], nofun⟩

instance : Inhabited FilePath := ⟨top .working⟩

/-- Where a path that is written out begins. -/
def rootOf : List Char → PathRoot
  | '/' :: '/' :: '/' :: _ => .root
  | '/' :: '/' :: _ => .doubleRoot
  | '/' :: _ => .root
  | _ => .working

/-- The segments of a path that is written out. -/
def partsOf (chars : List Char) : List String :=
  ((Text.splitOn '/' chars).filter fun part => !part.isEmpty && part != ['.']).map String.ofList

theorem isSegment_of_mem_partsOf {part : String} {chars : List Char} (member : part ∈ partsOf chars) :
    IsSegment part := by
  simp only [partsOf, List.mem_map, List.mem_filter, Bool.and_eq_true, Bool.not_eq_true',
    bne_iff_ne] at member
  obtain ⟨piece, ⟨found, filled, moving⟩, rfl⟩ := member
  refine ⟨?_, ?_, by simpa using Text.notMem_of_mem_splitOn found⟩
  · rintro empty
    have : piece = [] := by simpa using congrArg String.toList empty
    simp [this] at filled
  · rintro dot
    exact moving (by simpa using congrArg String.toList dot)

/-- Reads a path. -/
def ofString (text : String) : FilePath :=
  ⟨rootOf text.toList, partsOf text.toList, fun _ => isSegment_of_mem_partsOf⟩

theorem root_ofString (text : String) : (ofString text).root = rootOf text.toList := rfl

theorem parts_ofString (text : String) : (ofString text).parts = partsOf text.toList := rfl

/-- Writes a path. The working directory itself is a dot. -/
def text (path : FilePath) : String :=
  if path.root = .working ∧ path.parts = [] then "."
  else path.root.text ++ "/".intercalate path.parts

/-- Writes a path as that of a directory, with one slash behind it. -/
def textWithSlash (path : FilePath) : String :=
  if path.root ≠ .working ∧ path.parts = [] then "/" else path.text ++ "/"

/-- Whether a path does not depend on the working directory. -/
def isAbsolute (path : FilePath) : Bool := path.root != .working

/-- A path continued by another, which counts alone if it is absolute. -/
def join (path next : FilePath) : FilePath :=
  if next.isAbsolute then next
  else ⟨path.root, path.parts ++ next.parts, fun part member =>
    (List.mem_append.mp member).elim (path.normal part) (next.normal part)⟩

/-- A path continued by one that is written out. -/
def append (path : FilePath) (next : String) : FilePath := path.join (ofString next)

instance : HDiv FilePath String FilePath := ⟨append⟩

/-- The directories above some segments, nearest first. -/
def initsAbove : List String → List (List String)
  | [] => []
  | part :: rest => (initsAbove rest).map (part :: ·) ++ [[]]

theorem mem_initsAbove {parts above : List String} :
    above ∈ initsAbove parts ↔ ∃ rest, rest ≠ [] ∧ parts = above ++ rest := by
  induction parts generalizing above with
  | nil => simp [initsAbove]
  | cons part parts ih =>
    simp only [initsAbove, List.mem_append, List.mem_map, List.mem_singleton, ih]
    constructor
    · rintro (⟨above, ⟨rest, filled, rfl⟩, rfl⟩ | rfl)
      · exact ⟨rest, filled, rfl⟩
      · exact ⟨part :: parts, by simp, rfl⟩
    · rintro ⟨rest, filled, cut⟩
      cases above with
      | nil => exact .inr rfl
      | cons first above =>
        obtain ⟨rfl, rfl⟩ := List.cons.inj cut
        exact .inl ⟨above, ⟨rest, filled, rfl⟩, rfl⟩

/-- A path up to one of its segments. -/
theorem isSegment_of_mem_initsAbove (path : FilePath) :
    ∀ above ∈ initsAbove path.parts, ∀ part ∈ above, IsSegment part := by
  intro above member part held
  obtain ⟨rest, -, cut⟩ := mem_initsAbove.mp member
  exact path.normal part (cut ▸ List.mem_append_left rest held)

/-- The directories above a path, nearest first. -/
def parents (path : FilePath) : List FilePath :=
  (initsAbove path.parts).pmap (fun above normal => ⟨path.root, above, normal⟩)
    path.isSegment_of_mem_initsAbove

/-- The last segment of a path. -/
def name (path : FilePath) : List Char := (path.parts.getLast?.getD "").toList

/-- A name cut before its last dot. -/
def cutAtDot (name : List Char) : List Char × List Char :=
  match name.reverse.span (· != '.') with
  | (_, []) => (name, [])
  | (after, _ :: before) => (before.reverse, '.' :: after.reverse)

/-- A name as its stem and its suffix. A dot that begins or ends the name begins no suffix. -/
def stemAndSuffix (name : List Char) : List Char × List Char :=
  match cutAtDot name with
  | ([], _) => (name, [])
  | (_, ['.']) => (name, [])
  | cut => cut

/-- The suffix of a path's name, with its dot. -/
def suffix (path : FilePath) : List Char := (stemAndSuffix path.name).2

/-- A path's name without its suffix. -/
def stem (path : FilePath) : List Char := (stemAndSuffix path.name).1

/-- A path that is written out as its directory with the slash behind it and its last segment. -/
def splitLast (chars : List Char) : List Char × List Char :=
  let (base, directory) := chars.reverse.span (· != '/')
  (directory.reverse, base.reverse)

/-- A path that is written out as what stands before its extension and the extension. All dots that
begin the last segment belong to its stem. -/
def splitExtension (chars : List Char) : List Char × List Char :=
  let (directory, base) := splitLast chars
  let dots := base.takeWhile (· == '.')
  let (stem, extension) := cutAtDot (base.dropWhile (· == '.'))
  (directory ++ dots ++ stem, extension)

end FilePath

end EmberAssist
