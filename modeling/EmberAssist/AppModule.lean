/-! The modules of an application: what they are and what they are called. -/
namespace EmberAssist

/-- The kinds of module. -/
inductive ModuleKind where
  | component
  | route
  | controller
  | template
  | helper
  | modifier
  | service
  | model
  | adapter
  | serializer
  | transform
  | util
deriving DecidableEq, Repr, Inhabited

namespace ModuleKind

/-- Every kind, in the order in which they are listed. -/
def all : List ModuleKind :=
  [component, route, controller, template, helper, modifier, service, model, adapter, serializer,
    transform, util]

/-- The name of a kind. -/
def name : ModuleKind → String
  | component => "component"
  | route => "route"
  | controller => "controller"
  | template => "template"
  | helper => "helper"
  | modifier => "modifier"
  | service => "service"
  | model => "model"
  | adapter => "adapter"
  | serializer => "serializer"
  | transform => "transform"
  | util => "util"

/-- The kind with a name. -/
def ofName? (text : String) : Option ModuleKind := all.find? (·.name = text)

end ModuleKind

/-- A module of an application (`ModuleDescriptor`). -/
structure AppModule where
  name : List Char
  kind : ModuleKind
deriving DecidableEq, Repr, Inhabited

end EmberAssist
