import RegisterMachine.CommandLine.Usage

/-!
# Tokens of the command line

An argument that begins with a dash is spelled options: one after two dashes, possibly with a value
after an equals sign, or several letters after one dash.  All other arguments are plain, and so is
every argument after a lone `--`.
-/

namespace RegisterMachine

namespace CommandLine

/-- What an argument of the command line, or a letter of it, stands for. -/
inductive Token where
  /-- An option. -/
  | option (switch : Switch)
  /-- The size of a resource, given with its option. -/
  | sized (resource : Resource) (value : String)
  /-- The value of the option before it, or else the path of the image. -/
  | plain (text : String)
  /-- The path of the image. -/
  | path (text : String)
  /-- Nothing that is allowed. -/
  | refused (error : UsageError)
  deriving DecidableEq, Repr

namespace Token

/-- The token of an argument that is `body` after two dashes. -/
def ofLong (body : List Char) : Token :=
  let name := String.ofList (body.takeWhile (· ≠ '='))
  match Switch.ofName? name, body.dropWhile (· ≠ '=') with
  | none, _ => .refused (.unexpectedArgument ("--" ++ name))
  | some switch, [] => .option switch
  | some (.size resource), _ :: value => .sized resource (String.ofList value)
  | some switch, _ :: value => .refused (.unexpectedValue switch (String.ofList value))

/-- The token of one letter of an argument that begins with one dash. -/
def ofLetter (letter : Char) : Token :=
  match Switch.ofLetter? letter with
  | some switch => .option switch
  | none => .refused (.unexpectedArgument (String.ofList ['-', letter]))

/-- The tokens of one argument.  A dash alone is plain. -/
def ofArgument (argument : String) : List Token :=
  match argument.toList with
  | '-' :: '-' :: body => [ofLong body]
  | '-' :: letter :: letters => (letter :: letters).map ofLetter
  | _ => [.plain argument]

end Token

/-- The tokens of a command line. -/
def tokenize : List String → List Token
  | [] => []
  | argument :: arguments =>
    if argument = "--" then
      arguments.map .path
    else
      Token.ofArgument argument ++ tokenize arguments

end CommandLine

end RegisterMachine
