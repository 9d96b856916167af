import RegisterMachine.CommandLine.Size
import RegisterMachine.ControlSequence
import RegisterMachine.Resource

/-!
# Usage

What may stand on the command line, how it is spelled, and what is printed about it: the help text,
the version, and the errors of a command line that does not follow the rules.

## Main definitions

* `Switch`: the options, with `Switch.ofName?` and `Switch.ofLetter?` for their spellings;
* `helpText` and `versionLine`;
* `UsageError` and `UsageError.message`.
-/

namespace RegisterMachine

namespace CommandLine

/-- An option of the command line. -/
inductive Switch where
  /-- Sets the size of a resource; a value follows. -/
  | size (resource : Resource)
  /-- Faults on unknown opcodes. -/
  | strict
  /-- Leaves out the banner. -/
  | quiet
  /-- Asks for the help text. -/
  | help
  /-- Asks for the version. -/
  | version
  deriving DecidableEq, Repr

namespace Switch

/-- All options, in the order of the help text. -/
def all : List Switch :=
  [size .registers, size .memory, size .stack, size .rom, strict, quiet, help, version]

/-- The long spelling of an option, after the two dashes. -/
def name : Switch → String
  | size .registers => "registers"
  | size .memory => "memory"
  | size .stack => "stack"
  | size .rom => "rom-size"
  | strict => "strict"
  | quiet => "quiet"
  | help => "help"
  | version => "version"

/-- The short spelling of an option, after the dash, if it has one. -/
def letter? : Switch → Option Char
  | quiet => some 'q'
  | help => some 'h'
  | version => some 'V'
  | _ => none

/-- What stands for the value of an option in messages. -/
def placeholder? : Switch → Option String
  | size .registers => some "<REGISTERS>"
  | size .memory => some "<MEMORY>"
  | size .stack => some "<STACK>"
  | size .rom => some "<ROM_SIZE>"
  | _ => none

/-- The option with this long spelling. -/
def ofName? (name : String) : Option Switch :=
  all.find? fun s => s.name = name

/-- The option with this short spelling. -/
def ofLetter? (letter : Char) : Option Switch :=
  all.find? fun s => s.letter? = some letter

theorem mem_all (s : Switch) : s ∈ all := by
  rcases s with ⟨r⟩ | _ | _ | _ | _
  · cases r <;> decide
  all_goals decide

/-- An option as messages show it: the long spelling, and the placeholder of a value. -/
def display (s : Switch) : String :=
  match s.placeholder? with
  | some value => "--" ++ s.name ++ " " ++ value
  | none => "--" ++ s.name

end Switch

/-- The line that shows name and version of the program. -/
def versionLine : String :=
  "rgcpu 0.1.0\n"

/-- The lines of the help text. -/
def helpLines : List String := [
  "Run a ROM image on the four-register machine",
  "",
  "Usage: rgcpu [OPTIONS] <ROM>",
  "",
  "Arguments:",
  "  <ROM>  ROM file: little-endian 32-bit words, four per instruction",
  "",
  "Options:",
  "      --registers <REGISTERS>  Number of general-purpose registers [default: 4]",
  "      --memory <MEMORY>        Memory size in words [default: 2048]",
  "      --stack <STACK>          Stack size in words [default: 512]",
  "      --rom-size <ROM_SIZE>    Largest accepted ROM image, in words [default: 2048]",
  "      --strict                 Fault on unknown opcodes instead of skipping them",
  "  -q, --quiet                  Don't print the banner",
  "  -h, --help                   Print help",
  "  -V, --version                Print version"]

/-- The help text; every line ends with a line feed. -/
def helpText : String :=
  String.join (helpLines.map (· ++ "\n"))

/-- Why a command line does not follow the rules. -/
inductive UsageError where
  /-- No option is spelled so, or the path of the image was already given. -/
  | unexpectedArgument (text : String)
  /-- An option that takes no value has one. -/
  | unexpectedValue (option : Switch) (value : String)
  /-- An option that takes a value has none. -/
  | missingValue (option : Switch)
  /-- An option was given twice. -/
  | repeated (option : Switch)
  /-- The value given for the size of a resource is no size. -/
  | invalidSize (resource : Resource) (value : String) (cause : SizeError)
  /-- The path of the image is the empty text. -/
  | emptyPath
  /-- The path of the image was not given. -/
  | missingPath
  deriving DecidableEq, Repr

/-- A text of the user as messages show it: between quotes, and without control sequences. -/
def quoted (text : String) : String :=
  "'" ++ ControlSequence.strip text ++ "'"

/-- The message of a usage error. -/
def UsageError.message : UsageError → String
  | unexpectedArgument text => "error: unexpected argument " ++ quoted text ++ " found"
  | unexpectedValue option value =>
    "error: unexpected value " ++ quoted value ++ " for '" ++ option.display ++
      "' found; no more were expected"
  | missingValue option =>
    "error: a value is required for '" ++ option.display ++ "' but none was supplied"
  | repeated option =>
    "error: the argument '" ++ option.display ++ "' cannot be used multiple times"
  | invalidSize resource value cause =>
    "error: invalid value " ++ quoted value ++ " for '" ++ (Switch.size resource).display ++
      "': " ++ cause.message
  | emptyPath => "error: a value is required for '<ROM>' but none was supplied"
  | missingPath => "error: the following required arguments were not provided:"

end CommandLine

end RegisterMachine
