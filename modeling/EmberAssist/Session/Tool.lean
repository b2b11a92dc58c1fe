import EmberAssist.Data.Value
import EmberAssist.Session.Complete

/-! What other programs can ask of a session. Each answer is given from the files as they are, and
failures that can be expected are answered in words. -/
namespace EmberAssist.Tool

/-- An answer, or in words why there is none. -/
abbrev Answer (α : Type) := Except String α

/-- The words for a failure. -/
def inWords (reason : String) : String := "Error: " ++ reason

/-- Whether a request can be expected to fail so: there is no project, the file cannot be read, or the
template is not one. -/
def isExpected : RequestFault → Bool
  | .noProject _ => true
  | .unreadable _ => true
  | .template _ => true
  | _ => false

/-- Answers a request from the files as they are. -/
def answer {α : Type} (request : Request α) : Request (Answer α) := do
  Session.refresh
  try
    return .ok (← request)
  catch fault =>
    if isExpected fault then return .error (inWords fault.message) else throw fault

/-- The remark on a path that is no module. -/
def notRecognised (path : String) : String := path ++ " is not a recognised module."

/-- The candidates at a place in a file. -/
def complete (path : String) (p : Position) (text : Option String) :
    Request (Answer (List Candidate)) :=
  answer (Session.complete path p text none)

/-- The module of a path (`classify_path`). -/
def classify (path : String) : Request (Answer AppModule) := do
  match ← answer (Session.classify path none) with
  | .error reason => return .error reason
  | .ok (some found) => return .ok found
  | .ok none => return .error (inWords (notRecognised path))

/-- The remark on a kind of module that does not exist. -/
def unknownKind (name : String) : String :=
  let known := ModuleKind.all.map fun kind => Text.quoted kind.name.toList
  "unknown module type '" ++ name ++ "'. Supported: " ++
    String.ofList (Data.bracketed ['['] [']'] known)

/-- The modules of the project at a root, all of them or those of the kind with a name
(`list_modules`). -/
def listModules (root : String) (kind : Option String) : Request (Answer (List AppModule)) := do
  match kind with
  | none => answer (Session.modules root none)
  | some name =>
    match ModuleKind.ofName? name with
    | some kind => answer (Session.modules root (some kind))
    | none =>
      Session.refresh
      return .error (inWords (unknownKind name))

end EmberAssist.Tool
