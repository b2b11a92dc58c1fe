import EmberAssist.Position

/-! What is offered to complete a name. -/
namespace EmberAssist

/-- The kinds of candidate, as editors distinguish them. -/
inductive CandidateKind where
  | text
  | method
  | function
  | initializer
  | field
  | «variable»
  | «class»
  | interface
  | module
  | property
  | unit
  | value
  | enumeration
  | keyword
  | snippet
  | color
  | file
  | reference
  | folder
  | enumMember
  | constant
  | struct
  | event
  | operator
  | typeParameter
deriving DecidableEq, Repr, Inhabited

namespace CandidateKind

/-- Every kind, in the order of the numbers by which editors know them, from one on. -/
def all : List CandidateKind :=
  [text, method, function, initializer, field, «variable», «class», interface, module, property,
    unit, value, enumeration, keyword, snippet, color, file, reference, folder, enumMember,
    constant, struct, event, operator, typeParameter]

/-- The number by which editors know a kind. -/
def number (kind : CandidateKind) : Nat := all.idxOf kind + 1

/-- The kind that editors know by a number. -/
def ofNumber? (number : Nat) : Option CandidateKind :=
  if number = 0 then none else all[number - 1]?

/-- The name of a kind. -/
def name : CandidateKind → String
  | text => "Text"
  | method => "Method"
  | function => "Function"
  | initializer => "Constructor"
  | field => "Field"
  | «variable» => "Variable"
  | «class» => "Class"
  | interface => "Interface"
  | module => "Module"
  | property => "Property"
  | unit => "Unit"
  | value => "Value"
  | enumeration => "Enum"
  | keyword => "Keyword"
  | snippet => "Snippet"
  | color => "Color"
  | file => "File"
  | reference => "Reference"
  | folder => "Folder"
  | enumMember => "EnumMember"
  | constant => "Constant"
  | struct => "Struct"
  | event => "Event"
  | operator => "Operator"
  | typeParameter => "TypeParameter"

end CandidateKind

/-- A change of a text: what stands in a range is replaced. -/
structure TextEdit where
  range : Range
  newText : String
deriving DecidableEq, Repr

/-- A name that is offered, with a remark on it and the change that completes it, if that is not to
type the name (`CompletionCandidate`). -/
structure Candidate where
  kind : CandidateKind
  label : String
  detail : String
  edit : Option TextEdit
deriving DecidableEq, Repr, Inhabited

namespace Candidate

/-- The candidates whose labels are not among some labels, the first of those with the same label. -/
def uniqueFrom (seen : List String) : List Candidate → List Candidate
  | [] => []
  | candidate :: rest =>
    if seen.contains candidate.label then uniqueFrom seen rest
    else candidate :: uniqueFrom (candidate.label :: seen) rest

/-- The candidates with different labels, the first of those with the same label (`unique_by_label`). -/
def uniqueByLabel (candidates : List Candidate) : List Candidate := uniqueFrom [] candidates

end Candidate

end EmberAssist
