import RegisterMachine.Hexadecimal
import RegisterMachine.Machine.Run

/-!
# Reports

What is printed about a run that ended without a fault: why and after how many instructions it
ended, how many unknown opcodes were passed over if there were any, and every register.
-/

namespace RegisterMachine

namespace CommandLine

/-- The line that says why and when a run ended. -/
def endingLine (exit : Exit) (status : Status) : String :=
  match exit.reason with
  | .terminated => "terminated after " ++ toString exit.steps ++ " instructions"
  | .cancelled =>
    "cancelled after " ++ toString exit.steps ++ " instructions (" ++ status.name ++ ")"

/-- The line that says how many unknown opcodes were passed over. -/
def skippedLine (skipped : Nat) : String :=
  "skipped " ++ toString skipped ++ " unknown opcodes"

/-- The line of register `id`: its content in decimal, signed, and in hexadecimal, unsigned. -/
def registerLine (value : Word) (id : Nat) : String :=
  "r" ++ toString id ++ " = " ++ toString value.toInt ++ " (0x" ++
    Hexadecimal.padded 8 value.toUInt32.toNat ++ ")"

/-- The lines of the report on a run that left a machine with this status. -/
def reportLines (exit : Exit) (status : Status) : List String :=
  endingLine exit status ::
    (if exit.skipped = 0 then [] else [skippedLine exit.skipped]) ++
      exit.registers.cells.toList.mapIdx fun id value => registerLine value id

/-- The text of the report: every line ends with a line feed. -/
def report (exit : Exit) (status : Status) : String :=
  String.join ((reportLines exit status).map (· ++ "\n"))

end CommandLine

end RegisterMachine
