import EmberAssist.AppModule
import EmberAssist.Completion.Keyword
import EmberAssist.Files.Access

/-! All that a project offers in a context, before what has been typed is looked at. -/
namespace EmberAssist.Completion

open Template (Context)

/-- A path without its extension, if it has one of several (`_label_for`). -/
def label? (extensions : List String) (path : String) : Option String :=
  if extensions.any fun extension => Text.endsWith path.toList extension.toList then
    some (String.ofList (FilePath.splitExtension path.toList).1)
  else none

/-- The directories of components, in the order in which they count. -/
def componentDirectories (root : FilePath) : List FilePath :=
  [root / "app" / "components", root / "app" / "templates" / "components"]

/-- The directory of helpers. -/
def helperDirectory (root : FilePath) : FilePath := root / "app" / "helpers"

/-- The candidate for a file of a component. -/
def ofComponentFile? (path : String) : Option Candidate :=
  (label? [".js", ".ts", ".hbs"] path).map fun label => ⟨.class, label, "component", none⟩

/-- The candidate for a file of a helper. -/
def ofHelperFile? (path : String) : Option Candidate :=
  (label? [".js", ".ts"] path).map fun label => ⟨.function, label, "helper", none⟩

/-- The candidate for a module that is a route. -/
def ofRoute? (found : AppModule) : Option Candidate :=
  if found.kind = .route then some ⟨.file, String.ofList found.name, "route", none⟩ else none

/-- The components of a project (`list_components`). -/
def listComponents (root : FilePath) : FileReader (List Candidate) := do
  let listings ← (componentDirectories root).mapM listFiles
  return Candidate.uniqueByLabel (listings.flatten.filterMap ofComponentFile?)

/-- The helpers of a project (`list_helpers`). -/
def listHelpers (root : FilePath) : FileReader (List Candidate) := do
  return Candidate.uniqueByLabel ((← listFiles (helperDirectory root)).filterMap ofHelperFile?)

/-- The routes among modules (`list_routes`). -/
def listRoutes (modules : List AppModule) : List Candidate :=
  Candidate.uniqueByLabel (modules.filterMap ofRoute?)

/-- All candidates of the project at a root in a context (`gather_candidates`). The modules count only
where routes are offered. -/
def gather (context : Context) (root : FilePath) (modules : List AppModule) :
    FileReader (List Candidate) := do
  let found ←
    match context with
    | .mustache => do pure ((← listComponents root) ++ (← listHelpers root))
    | .block => listComponents root
    | .subExpression => listHelpers root
    | .link => pure (listRoutes modules)
    | .none => pure []
  return Candidate.uniqueByLabel (found ++ keywords context)

end EmberAssist.Completion
