import ArchiveScript.Path
import ArchiveScript.Run.Status

/-! # Options

The arguments of the program: options and one script file, in any order. The value of an option is
the next argument or stands after an equals sign.
-/

namespace ArchiveScript

/-- How much a run says besides its log output. -/
inductive Verbosity where
  /-- Nothing, not even log output. -/
  | quiet
  | normal
  | verbose
  | debug
  deriving DecidableEq, Repr

namespace Verbosity

/-- The least level of the messages that are shown. -/
def filter : Verbosity → String
  | quiet => "off"
  | normal => "warn"
  | verbose => "info"
  | debug => "debug"

/-- Quiet wins over debug, and debug over verbose. -/
def ofFlags (quiet verbose debug : Bool) : Verbosity :=
  if quiet then .quiet else if debug then .debug else if verbose then .verbose else .normal

end Verbosity

/-- What the arguments say. -/
structure Options where
  verbosity : Verbosity := .normal
  timing : Bool := false
  directory : Option Path := none
  config : Option Path := none
  file : Option Path := none
  help : Bool := false
  deriving DecidableEq, Repr

inductive OptionError where
  | unknownOption (arg : String)
  | missingValue (name : String)
  | extraArgument (arg : String)
  deriving DecidableEq, Repr

namespace OptionError

def message : OptionError → String
  | unknownOption arg => "unknown option '" ++ arg ++ "'"
  | missingValue name => "option '" ++ name ++ "' requires a value"
  | extraArgument arg => "unexpected argument '" ++ arg ++ "'; only one script file can be given"

def status (_ : OptionError) : Status := .couldNotParseOptions

end OptionError

namespace Options

/-- What an argument names: a flag, an option that takes a value, or neither. -/
inductive Switch where
  | quiet
  | verbose
  | debug
  | timing
  | help
  | directory
  | config
  deriving DecidableEq, Repr

def switch? : String → Option Switch
  | "-q" | "--quiet" => some .quiet
  | "-v" | "--verbose" => some .verbose
  | "--debug" => some .debug
  | "-t" | "--timing" => some .timing
  | "-h" | "--help" => some .help
  | "-d" | "--directory" => some .directory
  | "-c" | "--config" => some .config
  | _ => none

/-- The name of an option and the value that is given with it. -/
def splitValue (arg : String) : String × Option String :=
  let name := arg.toList.takeWhile (· != '=')
  if arg.startsWith "-" && name.length < arg.toList.length then
    (String.ofList name, some (String.ofList (arg.toList.drop (name.length + 1))))
  else (arg, none)

/-- The arguments read so far. -/
structure Draft where
  options : Options := {}
  quiet : Bool := false
  verbose : Bool := false
  debug : Bool := false

namespace Draft

def finish (draft : Draft) : Options :=
  { draft.options with verbosity := .ofFlags draft.quiet draft.verbose draft.debug }

def setDirectory (draft : Draft) (value : String) : Draft :=
  { draft with options := { draft.options with directory := some value } }

def setConfig (draft : Draft) (value : String) : Draft :=
  { draft with options := { draft.options with config := some value } }

def setTiming (draft : Draft) : Draft :=
  { draft with options := { draft.options with timing := true } }

def setHelp (draft : Draft) : Draft := { draft with options := { draft.options with help := true } }

def setFile (draft : Draft) (file : String) : Except OptionError Draft :=
  if draft.options.file.isSome then .error (.extraArgument file)
  else .ok { draft with options := { draft.options with file := some file } }

/-- An argument that is no option: a script file, unless it looks like an option. -/
def other (draft : Draft) (arg : String) : Except OptionError Draft :=
  if arg.startsWith "-" && arg != "-" then .error (.unknownOption arg) else draft.setFile arg

end Draft

def parseFrom (draft : Draft) : List String → Except OptionError Draft
  | [] => .ok draft
  | arg :: rest =>
    let (name, given) := splitValue arg
    match switch? name, given, rest with
    | some .quiet, _, rest => parseFrom { draft with quiet := true } rest
    | some .verbose, _, rest => parseFrom { draft with verbose := true } rest
    | some .debug, _, rest => parseFrom { draft with debug := true } rest
    | some .timing, _, rest => parseFrom draft.setTiming rest
    | some .help, _, rest => parseFrom draft.setHelp rest
    | some .directory, some value, rest => parseFrom (draft.setDirectory value) rest
    | some .directory, none, value :: rest => parseFrom (draft.setDirectory value) rest
    | some .config, some value, rest => parseFrom (draft.setConfig value) rest
    | some .config, none, value :: rest => parseFrom (draft.setConfig value) rest
    | some _, none, [] => .error (.missingValue name)
    | none, _, rest =>
      match draft.other arg with
      | .ok draft => parseFrom draft rest
      | .error error => .error error

/-- Reads the arguments after the name of the program. -/
def parse (args : List String) : Except OptionError Options :=
  (parseFrom {} args).map Draft.finish

/-- How the program is used. -/
def usage (program : String) : String :=
  "\n".intercalate [
    "Usage: " ++ program ++ " [options] <file>",
    "",
    "Runs a dbspec script.",
    "",
    "Options:",
    "  -d, --directory DIR  Working directory (default: current directory)",
    "  -c, --config FILE    Config file (default: dbspec.toml in the working directory)",
    "  -q, --quiet          Produce no output, even when failing",
    "  -v, --verbose        Log progress",
    "      --debug          Log debugging detail",
    "  -t, --timing         Report time spent in shell, SQL and SIARD commands",
    "  -h, --help           Show this help",
    "",
    "Exit codes:",
    "  0 ok, 1 script unreadable, 2 semantic error, 3 SQL error, 4 script error,",
    "  5 assertion failure, 6 AST error, 7 internal error, 8 SIARD error,",
    "  9 syntax error, 100 bad options, 101 no such directory, 102 no script file,",
    "  103 script file not found, 104 config file unreadable"]

end Options

end ArchiveScript
