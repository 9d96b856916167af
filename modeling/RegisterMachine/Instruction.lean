import RegisterMachine.Opcode

/-!
# Instructions

A program is a sequence of words, and an instruction is four words in a row: an opcode and three
operand words.  Which of the operand words are used, and for what, depends on the opcode;
`Instruction.operation?` reads them off, so that the machine only meets operands with a meaning.

## Main definitions

* `Instruction` and `Program.fetch?`: the four words at a place in a program;
* `Operand`: a value given in the instruction, or the register that holds it;
* `Arithmetic` and `Arithmetic.apply`: the operations on a register;
* `Operation` and `Instruction.operation?`: what an instruction asks for.

## Main statements

* `Program.fetch?_eq_some_iff`: an instruction is fetched exactly where four words are left.
-/

namespace RegisterMachine

/-- Four words of a program: an opcode and its operand words. -/
structure Instruction where
  /-- The word that says what to do. -/
  opcode : Word
  /-- The first operand word. -/
  arg₀ : Word
  /-- The second operand word. -/
  arg₁ : Word
  /-- The third operand word. -/
  arg₂ : Word
  deriving DecidableEq, Repr

namespace Instruction

/-- The words of an instruction, as they stand in a program. -/
def toList (i : Instruction) : List Word :=
  [i.opcode, i.arg₀, i.arg₁, i.arg₂]

end Instruction

/-- The words that a machine executes. -/
abbrev Program := Array Word

namespace Program

/-- The instruction that begins at word `pc`, if four words are left there. -/
def fetch? (program : Program) (pc : Nat) : Option Instruction :=
  if h : pc + 4 ≤ program.size then
    some ⟨program[pc], program[pc + 1], program[pc + 2], program[pc + 3]⟩
  else
    none

theorem fetch?_eq_none_iff {program : Program} {pc : Nat} :
    program.fetch? pc = none ↔ program.size < pc + 4 := by
  unfold fetch?
  split <;> simp <;> omega

theorem fetch?_eq_some_iff {program : Program} {pc : Nat} {i : Instruction} :
    program.fetch? pc = some i ↔
      pc + 4 ≤ program.size ∧ program[pc]? = some i.opcode ∧
        program[pc + 1]? = some i.arg₀ ∧ program[pc + 2]? = some i.arg₁ ∧
        program[pc + 3]? = some i.arg₂ := by
  unfold fetch?
  split
  · rename_i h
    rw [Array.getElem?_eq_getElem (by omega), Array.getElem?_eq_getElem (by omega),
      Array.getElem?_eq_getElem (by omega), Array.getElem?_eq_getElem (by omega)]
    cases i
    simp [h]
  · rename_i h
    simp [h]

end Program

/-- Where the value that an instruction works with comes from. -/
inductive Operand where
  /-- The instruction holds the value. -/
  | immediate (value : Word)
  /-- The value is in this register. -/
  | register (id : Word)
  deriving DecidableEq, Repr

/-- The operand given by a value word and a flag word: any flag but zero makes the value the number
of a register. -/
def Operand.ofWords (value flag : Word) : Operand :=
  if flag = 0 then .immediate value else .register value

/-- An operation that combines a register with an operand and leaves the result in the register. -/
inductive Arithmetic where
  | move
  | add
  | sub
  | mul
  | div
  | xor
  | or
  | and
  deriving DecidableEq, Repr

/-- The result of an operation on the old content of the register and the operand.  Sums,
differences, products and quotients wrap; quotients are rounded toward zero. -/
def Arithmetic.apply : Arithmetic → Word → Word → Word
  | move, _, value => value
  | add, old, value => old + value
  | sub, old, value => old - value
  | mul, old, value => old * value
  | div, old, value => old / value
  | xor, old, value => old ^^^ value
  | or, old, value => old ||| value
  | and, old, value => old &&& value

/-- What an instruction asks the machine to do. -/
inductive Operation where
  /-- Do nothing. -/
  | nop
  /-- Combine register `destination` with the source operand. -/
  | compute (op : Arithmetic) (destination : Word) (source : Operand)
  /-- Put the source operand on the stack. -/
  | push (source : Operand)
  /-- Take the top of the stack into register `destination`. -/
  | pop (destination : Word)
  /-- Write the source operand to memory. -/
  | store (address : Word) (source : Operand)
  /-- Read a word of memory into register `destination`. -/
  | load (address destination : Word)
  /-- Halt and wait. -/
  | halt
  /-- End the program. -/
  | finish
  deriving DecidableEq, Repr

/-- The operation of an instruction with this opcode and these operand words. -/
def Opcode.operation (o : Opcode) (arg₀ arg₁ arg₂ : Word) : Operation :=
  match o with
  | .nop => .nop
  | .move => .compute .move arg₀ (.ofWords arg₁ arg₂)
  | .add => .compute .add arg₀ (.ofWords arg₁ arg₂)
  | .sub => .compute .sub arg₀ (.ofWords arg₁ arg₂)
  | .mul => .compute .mul arg₀ (.ofWords arg₁ arg₂)
  | .div => .compute .div arg₀ (.ofWords arg₁ arg₂)
  | .xor => .compute .xor arg₀ (.ofWords arg₁ arg₂)
  | .or => .compute .or arg₀ (.ofWords arg₁ arg₂)
  | .and => .compute .and arg₀ (.ofWords arg₁ arg₂)
  | .push => .push (.ofWords arg₀ arg₁)
  | .pop => .pop arg₀
  | .store => .store arg₀ (.ofWords arg₁ arg₂)
  | .load => .load arg₀ arg₁
  | .halt => .halt
  | .finish => .finish

/-- The operation of an instruction; there is none when its first word is no opcode. -/
def Instruction.operation? (i : Instruction) : Option Operation :=
  (Opcode.decode? i.opcode).map fun o => o.operation i.arg₀ i.arg₁ i.arg₂

end RegisterMachine
