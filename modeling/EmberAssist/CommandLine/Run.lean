import EmberAssist.CommandLine.Command
import EmberAssist.CommandLine.Index
import EmberAssist.Session.Tool

/-! What a command line does. -/
namespace EmberAssist.CommandLine

/-- What a command works on: readers, the values of the environment's names, the directory that relative
paths start from, and the files. -/
structure World where
  readers : Readers
  environment : String → Option String
  workingDirectory : FilePath
  files : FileTree

/-- A server to be started: by which way it is reached, and at which address unless it is reached by
standard input. -/
structure Server where
  name : String
  transport : String
  address : Option (String × Int)
deriving DecidableEq, Repr

/-- What a command does: it ends with a code, it starts a server, or it shows modules and goes on as
they change. -/
inductive Outcome where
  | ended (code : Nat) (output : List Char)
  | serving (server : Server)
  | watching (output : List Char) (view : IndexView)

/-- The end of a command that succeeds if what it shows can be shown. -/
def shown (code : Nat) : Option (List Char) → Outcome
  | some output => .ended code output
  | none => .ended 1 []

/-- The name under which other programs know the server. -/
def serverName : String := "glimmer-complete"

namespace World

/-- A session in which a command is answered. -/
def session (world : World) : Session :=
  { Session.start world.readers (.ofEnvironment world.environment) (.cached world.files.source) with
    workingDirectory := world.workingDirectory }

/-- Answers a request. Failures that can be expected are shown. -/
def answer {α : Type} (world : World) (request : Request α) (show? : α → Outcome) : Outcome :=
  match ((request.run.run world.session).1 : Except RequestFault α) with
  | .ok a => show? a
  | .error fault =>
    if Tool.isExpected fault then shown 1 (styledLine? "red" fault.message) else .ended 1 []

/-- Shows the module of a path. -/
def showModule (path : String) : Option AppModule → Outcome
  | some found =>
    shown 0 (folded? (Console.styled "green" found.name ++
      (" (" ++ found.kind.name ++ ")").toList))
  | none => shown 1 (styledLine? "yellow" (Tool.notRecognised (FilePath.ofString path).text))

/-- The line that tells which directory is watched. -/
def watchingLine? (root : FilePath) : Option (List Char) :=
  folded? (Console.styled "green" ("Watching " ++ root.text ++ " (Ctrl+C to stop)").toList)

/-- Shows the modules of the project at a root, and goes on if it is asked to. -/
def index (world : World) (root : String) (kind : Option ModuleKind) (watch : Bool) : Outcome :=
  let path := world.workingDirectory / root
  if !world.files.isDirectory path then
    shown 1 (styledLine? "red" ((FilePath.ofString root).text ++ " is not a directory."))
  else
    let (table, view) := (IndexView.start world.readers.scripts world.files.source path kind).render
    match table with
    | none => .ended 1 []
    | some table =>
      if watch then
        match watchingLine? path with
        | some line => .watching (table ++ line) view
        | none => .ended 1 table
      else .ended 0 table

/-- Carries out a command. -/
def carryOut (world : World) : Command → Outcome
  | .complete file line column root json =>
    world.answer (Session.complete file ⟨line, column⟩ none root) fun candidates =>
      if json then .ended 0 (candidateJson candidates) else shown 0 (candidateTable? candidates)
  | .classify path root => world.answer (Session.classify path root) (showModule path)
  | .index root kind watch => world.index root kind watch
  | .serve transport host tcpPort =>
    .serving ⟨serverName, transport, if transport = "stdio" then none else some (host, tcpPort)⟩

/-- What a command line does. Help and what is wrong with a command line are not shown as answers. -/
def run (world : World) (commandLine : List String) : Outcome :=
  match read commandLine with
  | .help => .ended 0 []
  | .nothingKnown => .ended 2 []
  | .command command => world.carryOut command

end World

/-- What is shown when a command that goes on is stopped. -/
def stoppedLine : List Char := "Stopped.\n".toList

end EmberAssist.CommandLine
