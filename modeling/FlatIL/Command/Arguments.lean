import FlatIL.Command.InputOption
import FlatIL.Text.Similar

/-!
# Command line arguments

Options and the source file may come in any order; what follows a double dash is no
option. An option with a value takes it from the same argument or from the next one,
whatever that looks like. All arguments are sorted before any is checked. Then options
are checked in the order in which they were first given, then the source file, and only
then is a superfluous argument refused.
-/

namespace FlatIL.Command

/-- What the program can be asked to do. -/
inductive Subcommand where
  | run
  | fmt
  | repl
  deriving DecidableEq, Repr

namespace Subcommand

/-- The name of a subcommand. -/
def name : Subcommand → String
  | run => "run"
  | fmt => "fmt"
  | repl => "repl"

/-- Every subcommand once. -/
def all : List Subcommand :=
  [run, fmt, repl]

/-- The subcommand of a given name. -/
def ofName? (text : String) : Option Subcommand :=
  all.find? (·.name = text)

/-- Whether a subcommand works on a source file. -/
def takesSource : Subcommand → Bool
  | run | fmt => true
  | repl => false

end Subcommand

/-- The options. -/
inductive Flag where
  | input
  | maxSteps
  | json
  | verbose
  | help
  deriving DecidableEq, Repr

namespace Flag

/-- The long form of an option. -/
def long : Flag → String
  | input => "--input"
  | maxSteps => "--max-steps"
  | json => "--json"
  | verbose => "--verbose"
  | help => "--help"

/-- The letter of the short form of an option, if it has one. -/
def short? : Flag → Option Char
  | input => some 'i'
  | verbose => some 'v'
  | maxSteps | json | help => none

/-- Whether an option has a value. -/
def takesValue : Flag → Bool
  | input | maxSteps => true
  | json | verbose | help => false

/-- How an option is spoken of. -/
def hint : Flag → String
  | input => "'--input' / '-i'"
  | maxSteps => "'--max-steps'"
  | json => "'--json'"
  | verbose => "'--verbose' / '-v'"
  | help => "'--help'"

/-- The options of a subcommand, or those in front of it. -/
def inScope : Option Subcommand → List Flag
  | none => [verbose, help]
  | some .run => [input, maxSteps, json, help]
  | some .fmt => [help]
  | some .repl => [input, maxSteps, help]

end Flag

/-- Why a source file cannot be opened. -/
inductive OpenError where
  | absent
  | directory
  deriving DecidableEq, Repr

/-- The text of an error. -/
def OpenError.message : OpenError → String
  | absent => "No such file or directory"
  | directory => "Is a directory"

/-- Why a command line is refused. -/
inductive UsageError where
  | noCommand
  /-- No subcommand has that name; similar names are told. -/
  | noSuchCommand (name : String) (similar : List String)
  /-- No option has that name; similar names are told. -/
  | noSuchOption (text : String) (similar : List String)
  | needsValue (text : String)
  | takesNoValue (text : String)
  | badInput (error : InputOptionError)
  /-- The step budget is no integer. -/
  | badCount (text : String)
  /-- The step budget is below zero. -/
  | negativeCount (n : Int)
  | missingSource
  | cannotOpen (name : String) (error : OpenError)
  | extraArguments (arguments : List String)
  deriving DecidableEq, Repr

/-- What may have been meant, behind a complaint. -/
def suggestion : List String → String
  | [] => ""
  | [word] => " Did you mean " ++ Text.quoted word ++ "?"
  | words => " (Did you mean one of: " ++ ", ".intercalate (words.map Text.quoted) ++ "?)"

namespace UsageError

/-- The text of an error. -/
def message : UsageError → String
  | noCommand => "Missing command."
  | noSuchCommand name similar =>
    "No such command " ++ Text.quoted name ++ "." ++ suggestion similar
  | noSuchOption text similar => "No such option " ++ Text.quoted text ++ "." ++ suggestion similar
  | needsValue text => "Option " ++ Text.quoted text ++ " requires an argument."
  | takesNoValue text => "Option " ++ Text.quoted text ++ " does not take a value."
  | badInput error => "Invalid value for " ++ Flag.input.hint ++ ": " ++ error.message
  | badCount text =>
    "Invalid value for " ++ Flag.maxSteps.hint ++ ": " ++ Text.quoted text
      ++ " is not a valid integer range."
  | negativeCount n =>
    "Invalid value for " ++ Flag.maxSteps.hint ++ ": " ++ Decimal.ofInt n
      ++ " is not in the range x>=0."
  | missingSource => "Missing argument 'SOURCE_FILE'."
  | cannotOpen name error =>
    "Invalid value for 'SOURCE_FILE': '" ++ name ++ "': " ++ error.message
  | extraArguments [argument] => "Got unexpected extra argument (" ++ argument ++ ")"
  | extraArguments arguments =>
    "Got unexpected extra arguments (" ++ " ".intercalate arguments ++ ")"

/-- Whether the usage is shown with an error, as it is unless an option lacks its value or
has one too many. -/
def showsUsage : UsageError → Bool
  | needsValue _ | takesNoValue _ => false
  | _ => true

end UsageError

/-- What the usage line says after the name of the program. -/
def usageTail : Option Subcommand → String
  | none => " [OPTIONS] COMMAND [ARGS]..."
  | some .run => " run [OPTIONS] SOURCE_FILE"
  | some .fmt => " fmt [OPTIONS] SOURCE_FILE"
  | some .repl => " repl [OPTIONS]"

/-- The name of the program on the command line. -/
def programName : String := "simpil"

/-- The usage line. -/
def usageLine (scope : Option Subcommand) : String :=
  "Usage: " ++ programName ++ usageTail scope ++ "\n"

/-- The whole report of a refused command line. -/
def usageReport (scope : Option Subcommand) (error : UsageError) : String :=
  let help := programName ++ ((scope.map fun sub => " " ++ sub.name).getD "")
  let usage := usageLine scope ++ "Try '" ++ help ++ " --help' for help.\n\n"
  (if error.showsUsage then usage else "") ++ "Error: " ++ error.message ++ "\n"

/-- What was given on the command line, before anything of it is checked. -/
structure Arguments where
  /-- The values of all input options in order. -/
  inputs : List String := []
  /-- The last value of the step budget. -/
  maxSteps : Option String := none
  json : Bool := false
  verbose : Bool := false
  help : Bool := false
  /-- The options in the order in which they were first given. -/
  order : List Flag := []
  positional : List String := []
  deriving DecidableEq, Repr

namespace Arguments

/-- Notes that an option was given. -/
def note (found : Arguments) (flag : Flag) : Arguments :=
  if found.order.contains flag then found else { found with order := found.order ++ [flag] }

/-- Takes an option and its value, which is empty for one that has none. -/
def take (found : Arguments) (flag : Flag) (value : String) : Arguments :=
  match flag with
  | .input => { found.note flag with inputs := found.inputs ++ [value] }
  | .maxSteps => { found.note flag with maxSteps := some value }
  | .json => { found.note flag with json := true }
  | .verbose => { found.note flag with verbose := true }
  | .help => { found.note flag with help := true }

end Arguments

/-- What one argument is. -/
inductive Shape where
  /-- No option. -/
  | positional
  /-- Options that take no value. -/
  | switches (flags : List Flag)
  /-- Options that take no value, and one whose value is the next argument. -/
  | awaiting (flags : List Flag) (flag : Flag) (text : String)
  /-- Options that take no value, and one together with its value. -/
  | complete (flags : List Flag) (flag : Flag) (value : String)
  | refused (error : UsageError)
  deriving DecidableEq, Repr

/-- The name of a long option and the value after its equals sign, if it has one. -/
def splitLong (argument : String) : String × Option String :=
  let cs := argument.toList
  (String.ofList (cs.takeWhile (· != '=')),
    if cs.contains '=' then some (String.ofList ((cs.dropWhile (· != '=')).drop 1)) else none)

/-- What a long option is, given its name and the value after an equals sign. -/
def longShape (flags : List Flag) (name : String) (value : Option String) : Shape :=
  match flags.find? (·.long = name) with
  | none => .refused (.noSuchOption name (Text.similarTo name (flags.map Flag.long)))
  | some flag =>
    match flag.takesValue, value with
    | true, none => .awaiting [] flag name
    | true, some value => .complete [] flag value
    | false, none => .switches [flag]
    | false, some _ => .refused (.takesNoValue name)

/-- What a run of short options is, given the letters after the dash and the options before
them. -/
def shortShape (flags : List Flag) (before : List Flag) : List Char → Shape
  | [] => .switches before
  | c :: cs =>
    let text := String.ofList ['-', c]
    match flags.find? (·.short? = some c) with
    | none => .refused (.noSuchOption text [])
    | some flag =>
      if !flag.takesValue then shortShape flags (before ++ [flag]) cs
      else if cs.isEmpty then .awaiting before flag text
      else .complete before flag (String.ofList cs)

/-- What an argument is. -/
def shape (flags : List Flag) (argument : String) : Shape :=
  match argument.toList with
  | '-' :: '-' :: _ =>
    let (name, value) := splitLong argument
    longShape flags name value
  | '-' :: c :: cs => shortShape flags [] (c :: cs)
  | _ => .positional

/-- Takes options that have no value. -/
def Arguments.takeAll (found : Arguments) (flags : List Flag) : Arguments :=
  flags.foldl (fun found flag => found.take flag "") found

/-- Sorts arguments. A double dash ends the options, and if options must come first, so does
the first argument that is none. -/
def collect (flags : List Flag) (optionsFirst : Bool) (found : Arguments) :
    List String → Except UsageError Arguments
  | [] => .ok found
  | "--" :: rest => .ok { found with positional := found.positional ++ rest }
  | argument :: rest =>
    match shape flags argument with
    | .positional =>
      if optionsFirst then .ok { found with positional := argument :: rest }
      else collect flags optionsFirst
        { found with positional := found.positional ++ [argument] } rest
    | .switches given => collect flags optionsFirst (found.takeAll given) rest
    | .complete given flag value =>
      collect flags optionsFirst ((found.takeAll given).take flag value) rest
    | .awaiting given flag text =>
      match rest with
      | [] => .error (.needsValue text)
      | value :: rest => collect flags optionsFirst ((found.takeAll given).take flag value) rest
    | .refused error => .error error

/-- Reads a step budget. -/
def readCount (text : String) : Except UsageError Nat :=
  match Text.integer? text with
  | none => .error (.badCount text)
  | some n => if n < 0 then .error (.negativeCount n) else .ok n.toNat

/-- The text to work on and what it is called. -/
structure SourceFile where
  name : String
  text : String
  deriving DecidableEq, Repr

/-- What a checked command line asks for. -/
structure Settings where
  inputs : List (String × List Int) := []
  maxSteps : Option Nat := none
  json : Bool := false
  source : Option SourceFile := none
  deriving DecidableEq, Repr

/-- Checks the value of an option. -/
def checkFlag (found : Arguments) (settings : Settings) : Flag → Except UsageError Settings
  | .input => do
    let inputs ← (readInputs found.inputs).mapError .badInput
    return { settings with inputs }
  | .maxSteps => do
    match found.maxSteps with
    | none => return settings
    | some text => return { settings with maxSteps := some (← readCount text) }
  | .json => return { settings with json := found.json }
  | .verbose | .help => return settings

/-- The files that a command can open, by name. -/
abbrev Files := String → Except OpenError String

/-- Opens the source file; a single dash stands for the standard input. -/
def openSource (stdin : String) (files : Files) (name : String) : Except UsageError SourceFile :=
  if name == "-" then .ok { name := "<stdin>", text := stdin }
  else
    match files name with
    | .ok text => .ok { name, text }
    | .error error => .error (.cannotOpen name error)

/-- Checks the source file of a subcommand that takes one, and gives the arguments left over. -/
def checkSource (sub : Subcommand) (stdin : String) (files : Files) (positional : List String) :
    Except UsageError (Option SourceFile × List String) :=
  if sub.takesSource then
    match positional with
    | [] => .error .missingSource
    | name :: rest => do
      let source ← openSource stdin files name
      return (some source, rest)
  else .ok (none, positional)

/-- Checks everything that was given for a subcommand. -/
def check (sub : Subcommand) (stdin : String) (files : Files) (found : Arguments) :
    Except UsageError Settings := do
  let settings ← found.order.foldlM (checkFlag found) {}
  let (source, extra) ← checkSource sub stdin files found.positional
  if extra.isEmpty then return { settings with source }
  else .error (.extraArguments extra)

/-- What the whole command line asks for: how much is logged, and which subcommand is to
work on which arguments. -/
structure Request where
  verbose : Bool := false
  sub : Subcommand
  given : Arguments
  deriving DecidableEq, Repr

/-- Why a command line asks for no work. -/
inductive Dismissal where
  /-- The usage is asked for. -/
  | help (scope : Option Subcommand)
  /-- The command line is refused. -/
  | refused (scope : Option Subcommand) (error : UsageError)
  deriving DecidableEq, Repr

/-- Sorts the arguments of a scope; asking for help comes before everything but refused
options. -/
def collectIn (scope : Option Subcommand) (arguments : List String) :
    Except Dismissal Arguments :=
  match collect (Flag.inScope scope) scope.isNone {} arguments with
  | .error error => .error (.refused scope error)
  | .ok found => if found.help then .error (.help scope) else .ok found

/-- Sorts the whole command line. A subcommand that does not exist is taken for an option
before it is refused. -/
def readRequest (arguments : List String) : Except Dismissal Request := do
  let front ← collectIn none arguments
  match front.positional with
  | [] => .error (.refused none .noCommand)
  | name :: rest =>
    match Subcommand.ofName? name with
    | some sub => return { verbose := front.verbose, sub, given := ← collectIn (some sub) rest }
    | none =>
      let _ ← collectIn none (name :: rest)
      .error (.refused none
        (.noSuchCommand name (Text.similarTo name (Subcommand.all.map Subcommand.name))))

end FlatIL.Command
