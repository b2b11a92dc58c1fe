import EmberAssist.FilePath
import EmberAssist.Text.Lowercase

/-! Languages of files, told by their suffixes. -/
namespace EmberAssist

/-- The languages in which names can be completed. -/
inductive Language where
  | handlebars
  | javascript
  | typescript
deriving DecidableEq, Repr

/-- The name of a language. -/
def Language.name : Language → String
  | handlebars => "handlebars"
  | javascript => "javascript"
  | typescript => "typescript"

/-- The suffix of a path in lower case. -/
def FilePath.lowerSuffix (path : FilePath) : String := String.ofList (Text.lower path.suffix)

/-- The language of a suffix in lower case. -/
def Language.ofSuffix? : String → Option Language
  | ".hbs" => some handlebars
  | ".js" => some javascript
  | ".mjs" => some javascript
  | ".cjs" => some javascript
  | ".ts" => some typescript
  | _ => none

/-- The language of a file (`language_for_path`). -/
def Language.ofPath? (path : String) : Option Language :=
  ofSuffix? (FilePath.ofString path).lowerSuffix

/-- The suffixes of files that hold phrases, in lower case. -/
def phraseSuffixes : List String := [".json", ".yaml", ".yml"]

/-- Whether changes of a file matter: it is a template or a script, or it may hold phrases
(`_is_watched_file`). -/
def isWatchedFile (path : FilePath) : Bool :=
  (Language.ofSuffix? path.lowerSuffix).isSome || phraseSuffixes.contains path.lowerSuffix

end EmberAssist
