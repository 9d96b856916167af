import RegisterMachine.Hexadecimal
import RegisterMachine.Word

/-!
# Opcodes

The first word of an instruction says what the instruction does.  Fifteen words are opcodes; the
machine's policy decides about all others.

## Main definitions

* `Opcode`: the fifteen opcodes, with `Opcode.code` and `Opcode.mnemonic`;
* `Opcode.decode?`: the opcode that a word stands for.

## Main statements

* `Opcode.decode?_eq_some_iff`: a word decodes to an opcode exactly when it is the code of it.
-/

namespace RegisterMachine

/-- What an instruction does. -/
inductive Opcode where
  /-- Nothing. -/
  | nop
  /-- Overwrites a register. -/
  | move
  /-- Adds to a register. -/
  | add
  /-- Subtracts from a register. -/
  | sub
  /-- Multiplies a register. -/
  | mul
  /-- Divides a register, toward zero. -/
  | div
  /-- Bitwise exclusive or into a register. -/
  | xor
  /-- Bitwise or into a register. -/
  | or
  /-- Bitwise and into a register. -/
  | and
  /-- Halts the machine, which then waits for an outside cancel. -/
  | halt
  /-- Puts a word on the stack. -/
  | push
  /-- Takes the top of the stack into a register. -/
  | pop
  /-- Writes a word to memory. -/
  | store
  /-- Reads a word of memory into a register. -/
  | load
  /-- Ends the program. -/
  | finish
  deriving DecidableEq, Repr

namespace Opcode

/-- All opcodes, by ascending code. -/
def all : List Opcode :=
  [nop, move, add, sub, mul, div, xor, or, and, halt, push, pop, store, load, finish]

/-- The word that stands for an opcode. -/
def code : Opcode → Word
  | nop => 0x00
  | move => 0x01
  | add => 0x02
  | sub => 0x03
  | mul => 0x04
  | div => 0x05
  | xor => 0x06
  | or => 0x07
  | and => 0x08
  | halt => 0x09
  | push => 0x0A
  | pop => 0x0B
  | store => 0x0C
  | load => 0x0D
  | finish => 0xFF

/-- The opcode that the whole word `w` stands for, if any. -/
def decode? (w : Word) : Option Opcode :=
  all.find? fun o => o.code = w

@[simp]
theorem decode?_code (o : Opcode) : decode? o.code = some o := by
  cases o <;> decide

theorem decode?_eq_some_iff {w : Word} {o : Opcode} : decode? w = some o ↔ w = o.code := by
  constructor
  · intro h
    have := List.find?_some h
    simpa using (of_decide_eq_true this).symm
  · rintro rfl
    exact decode?_code o

theorem decode?_eq_none_iff {w : Word} : decode? w = none ↔ ∀ o : Opcode, w ≠ o.code := by
  simp only [Option.eq_none_iff_forall_ne_some, ne_eq, decode?_eq_some_iff]

/-- The name of an opcode in listings. -/
def mnemonic : Opcode → String
  | nop => "nop"
  | move => "mov"
  | add => "add"
  | sub => "sub"
  | mul => "mul"
  | div => "div"
  | xor => "xor"
  | or => "or"
  | and => "and"
  | halt => "hlt"
  | push => "push"
  | pop => "pop"
  | store => "sto"
  | load => "get"
  | finish => "end"

/-- The mnemonic of an opcode followed by its code, as in `nop (0x00)`. -/
def display (o : Opcode) : String :=
  o.mnemonic ++ " (0x" ++ Hexadecimal.padded 2 o.code.toUInt32.toNat ++ ")"

end Opcode

end RegisterMachine
