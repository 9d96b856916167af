import RegisterMachine.CommandLine.Directory
import RegisterMachine.CommandLine.Report
import RegisterMachine.CommandLine.Request
import RegisterMachine.Rom

/-!
# Sessions

One call of the program, from its arguments to its exit code and what it prints.  The run of an
image has four stages, each of which can fail: reading the file, checking the image, building the
machine, and executing.

## Main definitions

* `Failure` and `Failure.message`: the stage that failed, and why;
* `Outcome`: the exit code and what was printed;
* `Invocation.execute`: the run of an image, given the content of the file;
* `respond`: a whole session, given how files are read.
-/

namespace RegisterMachine

namespace CommandLine

/-- The stage at which the run of an image failed. -/
inductive Failure where
  /-- The file could not be read. -/
  | unreadable (path : String) (cause : ReadError)
  /-- The image was refused. -/
  | unloadable (path : String) (cause : Error)
  /-- The machine could not be built. -/
  | misconfigured (cause : Error)
  /-- The instruction at `pc` faulted. -/
  | faulted (pc : Nat) (cause : Error)
  deriving DecidableEq, Repr

/-- A message with the message of its cause below it. -/
def withCause (message cause : String) : String :=
  "Error: " ++ message ++ "\n\nCaused by:\n    " ++ cause ++ "\n"

/-- The text of a failure. -/
def Failure.message : Failure → String
  | unreadable path cause => withCause ("could not read " ++ path) cause.message
  | unloadable path cause => withCause ("could not load " ++ path) cause.message
  | misconfigured cause => "Error: " ++ cause.message ++ "\n"
  | faulted pc cause => withCause ("machine faulted at pc " ++ toString pc) cause.message

/-- How a session ends. -/
structure Outcome where
  /-- The exit code; there is none while the program waits for an interrupt. -/
  code? : Option Nat
  /-- What was printed to the standard output. -/
  stdout : String := ""
  /-- What was printed to the standard error. -/
  stderr : String := ""
  deriving DecidableEq, Repr

namespace Invocation

/-- The banner, unless it is left out. -/
def banner (inv : Invocation) : String :=
  if inv.quiet then "" else versionLine

/-- The machine and the image of a run, or the first stage that fails. -/
def load (inv : Invocation) (content : Except ReadError ByteArray) :
    Except Failure (Machine × Rom) := do
  let bytes ← content.mapError (.unreadable inv.path)
  let rom ← (Rom.ofBytes bytes inv.config).mapError (.unloadable inv.path)
  let machine ← (Machine.ofConfig inv.config).mapError .misconfigured
  .ok (machine, rom)

/-- The outcome of a run that failed. -/
def fail (inv : Invocation) (failure : Failure) : Outcome where
  code? := some 1
  stdout := inv.banner
  stderr := failure.message

/-- The run of an image, given the content of its file and the moment of an interrupt. -/
def execute (inv : Invocation) (content : Except ReadError ByteArray) (interrupt : Cancellation) :
    Outcome :=
  match inv.load content with
  | .error failure => inv.fail failure
  | .ok (machine, rom) =>
    match machine.run rom.words interrupt with
    | (.exited exit, m) =>
      { code? := some 0, stdout := inv.banner ++ report exit m.status }
    | (.faulted e, m) => inv.fail (.faulted m.pc e)
    | (.waiting, _) => { code? := none, stdout := inv.banner }

end Invocation

/-- What is printed about a usage error. -/
def usageText (e : UsageError) : String :=
  e.message ++ "\n\nFor more information, try '--help'.\n"

/-- The session with these arguments, the name of the program left out. -/
def respond (arguments : List String) (read : String → Except ReadError ByteArray)
    (interrupt : Cancellation) : Outcome :=
  match Request.parse arguments with
  | .ok .help => { code? := some 0, stdout := helpText }
  | .ok .version => { code? := some 0, stdout := versionLine }
  | .ok (.run inv) => inv.execute (read inv.path) interrupt
  | .error e => { code? := some 2, stderr := usageText e }

end CommandLine

end RegisterMachine
