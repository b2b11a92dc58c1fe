import EmberAssist.Data.Numeral

/-! The arguments of a command line: options, which begin with a dash, and others. -/
namespace EmberAssist.CommandLine

/-- What an option does. -/
inductive Effect where
  /-- Gives a value to a name. -/
  | value (name : String)
  /-- Turns something on or off. -/
  | turn (name : String) (on : Bool)
  /-- Asks for help. -/
  | help
deriving DecidableEq, Repr

/-- The options that a command knows, by their spellings. -/
abbrev OptionTable := List (String × Effect)

/-- Arguments that have been read. Of an option that is given several times the last one counts, and
stands first. -/
structure Arguments where
  values : List (String × String)
  turned : List (String × Bool)
  asksHelp : Bool
  others : List String
deriving DecidableEq, Repr, Inhabited

namespace Arguments

/-- No arguments. -/
def empty : Arguments := ⟨[], [], false, []⟩

/-- The value that an option gives to a name. -/
def value? (arguments : Arguments) (name : String) : Option String := arguments.values.lookup name

/-- Whether something is turned on. -/
def isOn (arguments : Arguments) (name : String) : Bool :=
  (arguments.turned.lookup name).getD false

/-- The arguments after an option without a value. -/
def apply (arguments : Arguments) : Effect → Arguments
  | .value _ => arguments
  | .turn name on => { arguments with turned := (name, on) :: arguments.turned }
  | .help => { arguments with asksHelp := true }

/-- The arguments after an option with a value. -/
def give (arguments : Arguments) (name value : String) : Arguments :=
  { arguments with values := (name, value) :: arguments.values }

end Arguments

/-- An argument cut at its first equals sign. -/
def splitEquals (argument : List Char) : List Char × Option (List Char) :=
  match argument.span (· != '=') with
  | (name, _ :: value) => (name, some value)
  | (name, []) => (name, none)

/-- Applies options of one letter that stand behind one dash. Those that take a value are not among
them. -/
def applyLetters? (table : OptionTable) (arguments : Arguments) : List Char → Option Arguments
  | [] => some arguments
  | letter :: letters =>
    match table.lookup (String.ofList ['-', letter]) with
    | some (.value _) => none
    | some effect => applyLetters? table (arguments.apply effect) letters
    | none => none

/-- Reads arguments up to the first that is no option, or all of them if options may stand behind
others. Two dashes end the options. -/
def readArguments? (table : OptionTable) (mixed : Bool) (arguments : Arguments) :
    List String → Option Arguments
  | [] => some arguments
  | "--" :: rest => some { arguments with others := arguments.others ++ rest }
  | argument :: rest =>
    match argument.toList with
    | '-' :: letter :: letters =>
      let (name, given) := splitEquals argument.toList
      match table.lookup (String.ofList name), given with
      | some (.value name), some value =>
        readArguments? table mixed (arguments.give name (String.ofList value)) rest
      | some (.value name), none =>
        match rest with
        | value :: behind => readArguments? table mixed (arguments.give name value) behind
        | [] => none
      | some _, some _ => none
      | some effect, none => readArguments? table mixed (arguments.apply effect) rest
      | none, _ =>
        if letter == '-' then none
        else
          match applyLetters? table arguments (letter :: letters) with
          | some arguments => readArguments? table mixed arguments rest
          | none => none
    | _ =>
      if mixed then
        readArguments? table mixed { arguments with others := arguments.others ++ [argument] } rest
      else some { arguments with others := arguments.others ++ argument :: rest }

/-- Digits without underscores, if each underscore stands between two digits. -/
def withoutUnderscores? : List Char → Option (List Char)
  | [] => some []
  | '_' :: _ => none
  | c :: '_' :: d :: rest =>
    if Text.isDecimalDigit c && Text.isDecimalDigit d then
      (withoutUnderscores? (d :: rest)).map (c :: ·)
    else none
  | c :: rest => (withoutUnderscores? rest).map (c :: ·)

/-- The whole number that an argument is. -/
def number? (argument : String) : Option Int := do
  let digits ← withoutUnderscores? argument.toList
  (Data.readInteger 10 digits).toOption

end EmberAssist.CommandLine
