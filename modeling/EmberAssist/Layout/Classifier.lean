import EmberAssist.Layout.Classic
import EmberAssist.Layout.Pod
import EmberAssist.Text.Lowercase

/-! The module of a path in a project. -/
namespace EmberAssist

/-- Where a project is and where its pods are. -/
structure ProjectLayout where
  root : String
  podPrefix : String
deriving DecidableEq, Repr, Inhabited

/-- Where pods are unless a project says otherwise. -/
def defaultPodPrefix : String := "app"

namespace Layout

open Text

/-- The directory of features. -/
def featuresMarker : List Char := "/app/features".toList

/-- The directory that features share. -/
def sharedMarker : List Char := "/app/shared/".toList

/-- The name of a module in a feature: the path from the features' directory on without the file, and
in the pod layout without the file's own directory as well. -/
def featureName (pod : Bool) (suffix : List Char) : List Char :=
  let segments :=
    splitOn '/' ("feature".toList ++ replace "/components/".toList ['/'] suffix)
  join ['/'] (segments.take (segments.length - if pod then 2 else 1))

/-- Names modules in features after their feature, and then modules that are shared as shared
(`rewrite_module_name`). The directories are found in the path in lower case, and the name is cut from
the path as it is. -/
def renamed (found : AppModule) (path : List Char) (pod : Bool) : AppModule :=
  let path := withSlashes path
  let lowered := lower path
  let name :=
    match find? (featuresMarker ++ ['/']) lowered with
    | some index => featureName pod (path.drop (index + featuresMarker.length))
    | none => found.name
  let name := if occursIn sharedMarker lowered then "shared/".toList ++ name else name
  { found with name }

end Layout

/-- The module of a path, in the classic layout if it fits that and in the pod layout otherwise
(`PathClassifier.classify`). -/
def ProjectLayout.classify (layout : ProjectLayout) (path : String) : Option AppModule :=
  let root := layout.root.toList
  match Layout.classicModule? root path.toList with
  | some found => some (Layout.renamed found path.toList false)
  | none =>
    (Layout.podModule? root layout.podPrefix.toList path.toList).map fun found =>
      Layout.renamed found path.toList true

/-- What tells the modules of paths: a layout, as it was when it was read. -/
structure PathClassifier where
  layout : ProjectLayout
deriving DecidableEq, Repr, Inhabited

/-- The module of a path. -/
def PathClassifier.classify (classifier : PathClassifier) (path : String) : Option AppModule :=
  classifier.layout.classify path

end EmberAssist
