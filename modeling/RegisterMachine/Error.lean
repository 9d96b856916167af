import RegisterMachine.Hexadecimal
import RegisterMachine.Resource
import RegisterMachine.Word

/-!
# Errors

Everything that can go wrong while a machine is configured, a program image is loaded, or an
instruction is executed, each with the data that locates it and with its text.
-/

namespace RegisterMachine

/-- Why an image was refused, a machine could not be built, or an instruction faulted. -/
inductive Error where
  /-- No whole instruction is left at `pc`; `remaining` words are. -/
  | endOfProgram (pc remaining : Nat)
  /-- The image ends inside an instruction. -/
  | truncatedImage (words : Nat)
  /-- The image ends inside a word. -/
  | misalignedImage (bytes : Nat)
  | imageTooLarge (words capacity : Nat)
  | invalidRegister (id : Word)
  | memoryOutOfBounds (address : Word) (capacity : Nat)
  | stackOverflow (capacity : Nat)
  | stackUnderflow
  | divisionByZero (pc : Nat)
  | unknownOpcode (opcode : Word) (pc : Nat)
  /-- The size asked for this resource is zero or beyond its limit. -/
  | invalidConfig (resource : Resource)
  deriving DecidableEq, Repr

namespace Error

/-- The text of an error.  An opcode is shown as an unsigned hexadecimal numeral of two digits or
more, every other number as a decimal one. -/
def message : Error → String
  | endOfProgram pc remaining =>
    "did not expect to reach the end of instructions (pc " ++ toString pc ++ ", " ++
      toString remaining ++ " words left)"
  | truncatedImage words =>
    "image of " ++ toString words ++ " words is not a whole number of 4-word instructions"
  | misalignedImage bytes =>
    "image of " ++ toString bytes ++ " bytes is not a whole number of words"
  | imageTooLarge words capacity =>
    "image of " ++ toString words ++ " words does not fit in a rom of " ++ toString capacity ++
      " words"
  | invalidRegister id => "register " ++ toString id.toInt ++ " does not exist"
  | memoryOutOfBounds address capacity =>
    "memory address " ++ toString address.toInt ++ " is outside 0.." ++ toString capacity
  | stackOverflow capacity => "stack overflow (capacity " ++ toString capacity ++ ")"
  | stackUnderflow => "pop from an empty stack"
  | divisionByZero pc => "division by zero at pc " ++ toString pc
  | unknownOpcode opcode pc =>
    "unknown opcode 0x" ++ Hexadecimal.padded 2 opcode.toUInt32.toNat ++ " at pc " ++ toString pc
  | invalidConfig resource => "invalid configuration: " ++ resource.requirement

end Error

end RegisterMachine
