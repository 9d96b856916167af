import RegisterMachine.CommandLine.Session
import Std.Async.Signal

/-!
# The program

The command line program around `RegisterMachine.CommandLine.Session`: it reads the file of the
image, waits for an interrupt when the machine has halted, prints, and exits.

## Main definitions

* `main`: the program.
-/

namespace RegisterMachine

namespace CommandLine

/-- The read error that a failed attempt to read a file reports. -/
def readErrorOf : IO.Error → ReadError
  | .alreadyExists _ number reason => ⟨reason, number.toNat⟩
  | .otherError number reason => ⟨reason, number.toNat⟩
  | .resourceBusy number reason => ⟨reason, number.toNat⟩
  | .resourceVanished number reason => ⟨reason, number.toNat⟩
  | .unsupportedOperation number reason => ⟨reason, number.toNat⟩
  | .hardwareFault number reason => ⟨reason, number.toNat⟩
  | .unsatisfiedConstraints number reason => ⟨reason, number.toNat⟩
  | .illegalOperation number reason => ⟨reason, number.toNat⟩
  | .protocolError number reason => ⟨reason, number.toNat⟩
  | .timeExpired number reason => ⟨reason, number.toNat⟩
  | .interrupted _ number reason => ⟨reason, number.toNat⟩
  | .noFileOrDirectory _ number reason => ⟨reason, number.toNat⟩
  | .invalidArgument _ number reason => ⟨reason, number.toNat⟩
  | .permissionDenied _ number reason => ⟨reason, number.toNat⟩
  | .resourceExhausted _ number reason => ⟨reason, number.toNat⟩
  | .inappropriateType _ number reason => ⟨reason, number.toNat⟩
  | .noSuchThing _ number reason => ⟨reason, number.toNat⟩
  | .unexpectedEof => ⟨"Input/output error", 5⟩
  | .userError reason => ⟨reason, 0⟩

/-- Reads a file. -/
def readContent (path : String) : IO (Except ReadError ByteArray) := do
  try
    let content ← IO.FS.withFile path .read fun file => file.readBinToEnd
    return .ok content
  catch e =>
    return .error (readErrorOf e)

/-- Prints what an outcome holds. -/
def Outcome.print (o : Outcome) : IO Unit := do
  let stdout ← IO.getStdout
  stdout.putStr o.stdout
  stdout.flush
  let stderr ← IO.getStderr
  stderr.putStr o.stderr
  stderr.flush

/-- Waits until the user interrupts the program. -/
def awaitInterrupt : IO Unit := do
  let waiter ← Std.Async.Signal.Waiter.mk .sigint false
  let interrupted ← waiter.wait
  let _ ← interrupted.block

/-- Runs an image.  After the banner, a machine that has halted is left alone until the user
interrupts the program. -/
def Invocation.perform (inv : Invocation) : IO UInt32 := do
  let content ← readContent inv.path
  let outcome := inv.execute content .never
  outcome.print
  match outcome.code? with
  | some code => return UInt32.ofNat code
  | none =>
    awaitInterrupt
    let outcome := { inv with quiet := true }.execute content .onceHalted
    outcome.print
    return UInt32.ofNat (outcome.code?.getD 0)

end CommandLine

end RegisterMachine

open RegisterMachine.CommandLine in
/-- The program: exits with code 0, or 1 when the run of the image failed, or 2 when the command
line is wrong. -/
def main (arguments : List String) : IO UInt32 := do
  match Request.parse arguments with
  | .ok (.run inv) => inv.perform
  | _ =>
    let outcome := respond arguments (fun _ => .error .notFound) .never
    outcome.print
    return UInt32.ofNat (outcome.code?.getD 0)
