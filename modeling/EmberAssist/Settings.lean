/-! What can be set for a session. -/
namespace EmberAssist

/-- The settings of a session: the directory of phrases, the name that is typed at the cursor of
half-typed templates, and the file that marks the root of a project. -/
structure Settings where
  phrasesDirectory : String
  placeholder : String
  projectMarker : String
deriving DecidableEq, Repr, Inhabited

namespace Settings

/-- The settings unless the environment says otherwise. -/
def usual : Settings := ⟨"translations", "GlimmerCompletionDummy", "package.json"⟩

/-- The name under which an environment sets the directory of phrases. -/
def phrasesVariable : String := "GLIMMER_COMPLETE_TRANSLATIONS_DIR"

/-- The name under which an environment sets the placeholder. -/
def placeholderVariable : String := "GLIMMER_COMPLETE_PLACEHOLDER"

/-- The name under which an environment sets the marker of projects. -/
def markerVariable : String := "GLIMMER_COMPLETE_PROJECT_MARKER"

/-- All names under which an environment sets something. -/
def environmentNames : List String := [phrasesVariable, placeholderVariable, markerVariable]

/-- The settings in an environment, which gives values to names (`get_settings`). -/
def ofEnvironment (environment : String → Option String) : Settings :=
  ⟨(environment phrasesVariable).getD usual.phrasesDirectory,
    (environment placeholderVariable).getD usual.placeholder,
    (environment markerVariable).getD usual.projectMarker⟩

/-- The settings with a marker of projects in the place of an empty one. -/
def withMarkerOr (settings : Settings) (marker : String) : Settings :=
  if settings.projectMarker.isEmpty then { settings with projectMarker := marker } else settings

end Settings

end EmberAssist
