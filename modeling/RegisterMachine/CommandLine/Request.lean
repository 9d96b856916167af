import RegisterMachine.CommandLine.Token
import RegisterMachine.Config

/-!
# Requests

A command line asks for the help text, for the version, or for the run of an image.  Its tokens are
read from the left into a draft.  An option or a path is only *settled*, that is, checked and
entered, when the next token shows that it is complete; a token that is refused is reported before
anything is settled.

## Main definitions

* `Request` and `Invocation`: what a command line asks for;
* `Draft` and `Draft.settle`: what was read so far;
* `Request.parse`: the request of a command line.
-/

namespace RegisterMachine

namespace CommandLine

/-- The run that a command line asks for. -/
structure Invocation where
  /-- The path of the image. -/
  path : String
  /-- The configuration of the machine. -/
  config : Config
  /-- The banner is left out. -/
  quiet : Bool
  deriving DecidableEq, Repr

/-- What a command line asks for. -/
inductive Request where
  /-- The help text. -/
  | help
  /-- The version. -/
  | version
  /-- The run of an image. -/
  | run (invocation : Invocation)
  deriving DecidableEq, Repr

/-- What was read, but may not be complete or has not been checked. -/
inductive Pending where
  /-- Nothing. -/
  | nothing
  /-- The option for the size of a resource, without its value. -/
  | option (resource : Resource)
  /-- The size of a resource. -/
  | size (resource : Resource) (value : String)
  /-- The path of the image. -/
  | path (text : String)
  deriving DecidableEq, Repr

/-- What was read of a command line so far. -/
structure Draft where
  /-- The configuration with the sizes that were settled. -/
  config : Config := {}
  /-- The path of the image, if it was settled. -/
  path? : Option String := none
  /-- The options that were settled. -/
  given : List Switch := []
  /-- What is not settled yet. -/
  pending : Pending := .nothing
  deriving DecidableEq, Repr

namespace Draft

/-- Enters an option, which must not have been given before. -/
def give (d : Draft) (s : Switch) : Except UsageError Draft :=
  if s ∈ d.given then .error (.repeated s) else .ok { d with given := s :: d.given }

/-- Enters the size of a resource. -/
def giveSize (d : Draft) (r : Resource) (value : String) : Except UsageError Draft := do
  let d ← d.give (.size r)
  match parseSize value with
  | .ok n => .ok { d with config := d.config.setSize r n }
  | .error cause => .error (.invalidSize r value cause)

/-- Checks and enters what is pending. -/
def settle (d : Draft) : Except UsageError Draft :=
  match d.pending with
  | .nothing => .ok d
  | .option r => .error (.missingValue (.size r))
  | .size r value => { d with pending := .nothing }.giveSize r value
  | .path text =>
    if text = "" then .error .emptyPath
    else .ok { d with pending := .nothing, path? := some text }

/-- The path of the image was read, settled or not. -/
def hasPath (d : Draft) : Bool :=
  match d.pending with
  | .path _ => true
  | _ => d.path?.isSome

/-- Reads the path of the image. -/
def readPath (d : Draft) (text : String) : Except UsageError Draft := do
  if d.hasPath then
    .error (.unexpectedArgument text)
  else
    let d ← d.settle
    .ok { d with pending := .path text }

/-- Reads an option that sets something; a value for it may follow. -/
def readSwitch (d : Draft) (s : Switch) : Except UsageError Draft := do
  let d ← d.settle
  match s with
  | .size r => .ok { d with pending := .option r }
  | s => d.give s

/-- The configuration that was asked for. -/
def finalConfig (d : Draft) : Config :=
  if Switch.strict ∈ d.given then { d.config with policy := .strict } else d.config

/-- The request at the end of the command line. -/
def finish (d : Draft) : Except UsageError Request := do
  let d ← d.settle
  match d.path? with
  | some path => .ok (.run ⟨path, d.finalConfig, Switch.quiet ∈ d.given⟩)
  | none => .error .missingPath

/-- Reads the remaining tokens.  The first error ends the reading, and so do the options that ask
for the help text or the version. -/
def read (d : Draft) : List Token → Except UsageError Request
  | [] => d.finish
  | .option .help :: _ => d.settle.map fun _ => .help
  | .option .version :: _ => d.settle.map fun _ => .version
  | .option s :: tokens => do
    let d ← d.readSwitch s
    d.read tokens
  | .sized r value :: tokens => do
    let d ← d.settle
    let d ← d.giveSize r value
    d.read tokens
  | .plain text :: tokens =>
    match d.pending with
    | .option r => { d with pending := .size r text }.read tokens
    | _ => do
      let d ← d.readPath text
      d.read tokens
  | .path text :: tokens => do
    let d ← d.readPath text
    d.read tokens
  | .refused error :: _ => .error error

end Draft

/-- The request of a command line, the name of the program left out. -/
def Request.parse (arguments : List String) : Except UsageError Request :=
  Draft.read {} (tokenize arguments)

end CommandLine

end RegisterMachine
