import EmberAssist.AppModule
import EmberAssist.CommandLine.Argument

/-! The commands that can be given. -/
namespace EmberAssist.CommandLine

/-- A command. -/
inductive Command where
  | complete (file : String) (line column : Int) (root : Option String) (json : Bool)
  | classify (path : String) (root : Option String)
  | index (root : String) (kind : Option ModuleKind) (watch : Bool)
  | serve (transport host : String) (tcpPort : Int)
deriving DecidableEq, Repr

/-- What a command line asks for. -/
inductive Asked where
  | help
  | command (command : Command)
  | nothingKnown
deriving DecidableEq, Repr

/-- The options that ask for help. -/
def helpOptions : OptionTable := [("-h", .help), ("--help", .help)]

/-- The options before a command. -/
def commonOptions : OptionTable :=
  [("-v", .turn "verbose" true), ("--verbose", .turn "verbose" true)] ++ helpOptions

/-- What the arguments of a command ask for. -/
def asked (table : OptionTable) (command? : Arguments → Option Command) (rest : List String) :
    Asked :=
  match readArguments? (table ++ helpOptions) true .empty rest with
  | none => .nothingKnown
  | some arguments =>
    if arguments.asksHelp then .help
    else
      match command? arguments with
      | some command => .command command
      | none => .nothingKnown

/-- The number that an option gives to a name, or a usual one. -/
def Arguments.numberOr? (arguments : Arguments) (name : String) (usual : Option Int) :
    Option Int :=
  match arguments.value? name with
  | some value => number? value
  | none => usual

/-- The command to complete at a place in a file. -/
def completeCommand? (arguments : Arguments) : Option Command :=
  match arguments.others with
  | [file] => do
    let line ← arguments.numberOr? "line" none
    let column ← arguments.numberOr? "column" none
    return .complete file line column (arguments.value? "root") (arguments.isOn "json")
  | _ => none

/-- The command to tell the module of a path. -/
def classifyCommand? (arguments : Arguments) : Option Command :=
  match arguments.others with
  | [path] => some (.classify path (arguments.value? "root"))
  | _ => none

/-- The command to list the modules of a project. -/
def indexCommand? (arguments : Arguments) : Option Command := do
  let kind ←
    match arguments.value? "type" with
    | some name => (ModuleKind.ofName? name).map some
    | none => some none
  match arguments.others with
  | [] => return .index "." kind (arguments.isOn "watch")
  | [root] => return .index root kind (arguments.isOn "watch")
  | _ => none

/-- The command to serve other programs. -/
def serveCommand? (arguments : Arguments) : Option Command := do
  let tcpPort ← arguments.numberOr? "tcpPort" (some 8000)
  if arguments.others.isEmpty then
    return .serve ((arguments.value? "transport").getD "stdio")
      ((arguments.value? "host").getD "127.0.0.1") tcpPort
  else none

/-- What the arguments behind the word for servers ask for. -/
def askedToServe (rest : List String) : Asked :=
  match readArguments? helpOptions false .empty rest with
  | none => .nothingKnown
  | some arguments =>
    if arguments.asksHelp then .help
    else
      match arguments.others with
      | "mcp" :: rest =>
        asked [("--transport", .value "transport"), ("--host", .value "host"),
          ("--port", .value "tcpPort")] serveCommand? rest
      | _ => .nothingKnown

/-- What a command line asks for. -/
def read (commandLine : List String) : Asked :=
  match readArguments? commonOptions false .empty commandLine with
  | none => .nothingKnown
  | some arguments =>
    if arguments.asksHelp then .help
    else
      match arguments.others with
      | "complete" :: rest =>
        asked [("--line", .value "line"), ("--column", .value "column"), ("--root", .value "root"),
          ("--json", .turn "json" true)] completeCommand? rest
      | "classify" :: rest => asked [("--root", .value "root")] classifyCommand? rest
      | "index" :: rest =>
        asked [("--type", .value "type"), ("--watch", .turn "watch" true),
          ("--no-watch", .turn "watch" false)] indexCommand? rest
      | "serve" :: rest => askedToServe rest
      | _ => .nothingKnown

end EmberAssist.CommandLine
