import Mathlib.Logic.Equiv.Basic
import RegisterMachine.Proofs.InstructionSequence
import RegisterMachine.Proofs.InstructionTable
import RegisterMachine.Proofs.Lockstep

/-!
# Renaming registers and memory cells

No register and no memory cell is special.  When the registers and the cells are permuted, and the
numbers in a program with them, the machine does the same as before, in other places.  A number that
no register or cell has is kept, so that an instruction that faults because of it faults with the
same error.

## Main definitions

* `Renaming` : a permutation of the registers and one of the memory cells;
* `Program.renamed` and `Instruction.renamed` : a program, or one of its instructions, that names
  the registers and cells anew;
* `Bank.PermutedTo` and `Machine.RenamedTo` : the same words in permuted cells.

## Main statements

* `Instruction.operation?_renamed` : a renamed instruction asks for the renamed operation;
* `Machine.lockstep_renamed` : machines keep in step when they and their programs are renamed;
* `Machine.renamed_agrees` : what this means for a machine that was just built.
-/

namespace RegisterMachine

/-! ### Numbers of cells -/

/-- The word that numbers cell `π i` where `w` numbers cell `i`.  A word that numbers none of the
`n` cells is kept. -/
def Word.renamed {n : Nat} (π : Equiv.Perm (Fin n)) (w : Word) : Word :=
  if h : 0 ≤ w.toInt ∧ w.toInt < n then Int32.ofNat (π ⟨w.toInt.toNat, by omega⟩) else w

namespace Word

variable {n : Nat} {π : Equiv.Perm (Fin n)} {w : Word}

theorem renamed_of_not (h : ¬ (0 ≤ w.toInt ∧ w.toInt < n)) : w.renamed π = w :=
  dif_neg h

theorem toInt_renamed (hn : n < 2 ^ 31) {i : Fin n} (hi : w.toInt = (i : Nat)) :
    (w.renamed π).toInt = (π i : Nat) := by
  have hlt := i.isLt
  have hrange : 0 ≤ w.toInt ∧ w.toInt < n := by omega
  have heq : (⟨w.toInt.toNat, by omega⟩ : Fin n) = i := Fin.ext (by simp [hi])
  have hπ := (π i).isLt
  rw [renamed, dif_pos hrange, heq, Int32.toInt_ofNat_of_lt (by omega)]

end Word

/-- `b` and `b'` have `n` cells, and cell `π i` of `b'` holds what cell `i` of `b` holds. -/
structure Bank.PermutedTo {n : Nat} (π : Equiv.Perm (Fin n)) (b b' : Bank) : Prop where
  /-- The first bank has `n` cells. -/
  size_eq : b.size = n
  /-- So has the second one. -/
  size_eq' : b'.size = n
  /-- Cell `π i` of the second one holds what cell `i` of the first one holds. -/
  getElem?_eq : ∀ i : Fin n, b'.cells[(π i : Nat)]? = b.cells[(i : Nat)]?

namespace Bank

variable {n : Nat} {π : Equiv.Perm (Fin n)} {b b' : Bank} {w v : Word}

theorem set_of_get?_eq_none (h : b.get? w = none) (v : Word) : b.set w v = b := by
  rw [get?_eq_none_iff, ← index?_eq_none_iff] at h
  rw [set, h]

theorem zeros_permutedTo (π : Equiv.Perm (Fin n)) : (zeros n).PermutedTo π (zeros n) where
  size_eq := size_zeros n
  size_eq' := size_zeros n
  getElem?_eq i := by
    show (Array.replicate n (0 : Word))[(π i : Nat)]? = (Array.replicate n 0)[(i : Nat)]?
    simp

namespace PermutedTo

theorem exists_index (h : b.PermutedTo π b') (hv : b.get? w = some v) :
    ∃ i : Fin n, w.toInt = (i : Nat) := by
  obtain ⟨hw, hlt⟩ := hasCell_of_get?_eq_some hv
  rw [h.size_eq] at hlt
  exact ⟨⟨w.toInt.toNat, by omega⟩, (Int.toNat_of_nonneg hw).symm⟩

/-- A word that numbers no cell of the one bank is kept, and numbers none of the other. -/
theorem renamed_of_get?_eq_none (h : b.PermutedTo π b') (hnone : b.get? w = none) :
    w.renamed π = w ∧ b'.get? w = none := by
  rw [get?_eq_none_iff_not_hasCell, HasCell, h.size_eq] at hnone
  refine ⟨Word.renamed_of_not hnone, ?_⟩
  rwa [get?_eq_none_iff_not_hasCell, HasCell, h.size_eq']

/-- **What is read under the new number** is what was read under the old one. -/
theorem get?_renamed (hn : n < 2 ^ 31) (h : b.PermutedTo π b') (w : Word) :
    b'.get? (w.renamed π) = b.get? w := by
  cases hv : b.get? w with
  | none =>
    obtain ⟨hkept, hnone'⟩ := h.renamed_of_get?_eq_none hv
    rw [hkept, hnone']
  | some v =>
    obtain ⟨i, hi⟩ := h.exists_index hv
    have hi' : (w.renamed π).toInt = (π i : Nat) := Word.toInt_renamed hn hi
    rw [get?_eq_some_iff, hi, Int.toNat_natCast] at hv
    rw [get?_eq_some_iff, hi', Int.toNat_natCast, h.getElem?_eq i]
    exact ⟨Int.natCast_nonneg _, hv.2⟩

/-- **What is written under the two numbers** keeps the banks permuted. -/
theorem set (hn : n < 2 ^ 31) (h : b.PermutedTo π b') (w v : Word) :
    (b.set w v).PermutedTo π (b'.set (w.renamed π) v) := by
  cases hu : b.get? w with
  | none =>
    obtain ⟨hkept, hnone'⟩ := h.renamed_of_get?_eq_none hu
    rw [hkept, set_of_get?_eq_none hu, set_of_get?_eq_none hnone']
    exact h
  | some u =>
    obtain ⟨i, hi⟩ := h.exists_index hu
    have hi' : (w.renamed π).toInt = (π i : Nat) := Word.toInt_renamed hn hi
    have hholds : b.Holds w u := get?_eq_some_iff.1 hu
    have hholds' : b'.Holds (w.renamed π) u :=
      get?_eq_some_iff.1 ((h.get?_renamed hn w).trans hu)
    refine ⟨(size_set b w v).trans h.size_eq, (size_set b' _ v).trans h.size_eq', fun j => ?_⟩
    rw [getElem?_cells_set hholds, getElem?_cells_set hholds', h.getElem?_eq j, hi, hi']
    -- `π` does not bring two cells together
    have hiff : ((π j : Nat) : Int) = (π i : Nat) ↔ ((j : Nat) : Int) = (i : Nat) := by
      rw [Int.ofNat_inj, Int.ofNat_inj, Fin.val_inj, Fin.val_inj, π.apply_eq_iff_eq]
    simp only [hiff]

end PermutedTo

end Bank

/-! ### Renamed programs -/

/-- A permutation of the registers and one of the memory cells that a configuration asks for. -/
structure Renaming (config : Config) where
  /-- Where the registers go. -/
  registers : Equiv.Perm (Fin config.registers)
  /-- Where the memory cells go. -/
  memory : Equiv.Perm (Fin config.memory)

namespace Renaming

variable {config : Config} (ρ : Renaming config)

/-- The new number of a register. -/
def register (id : Word) : Word :=
  id.renamed ρ.registers

/-- The new address of a memory cell. -/
def address (a : Word) : Word :=
  a.renamed ρ.memory

/-- The value word of an operand with this flag word: a number of a register where the flag is not
zero. -/
def source (value flag : Word) : Word :=
  if flag = 0 then value else ρ.register value

end Renaming

section Renamed

variable {config : Config} (ρ : Renaming config)

/-- The instruction with its registers and its address named anew. -/
def Instruction.renamed (i : Instruction) : Instruction :=
  match Opcode.decode? i.opcode with
  | some .move | some .add | some .sub | some .mul | some .div | some .xor | some .or | some .and =>
    { i with arg₀ := ρ.register i.arg₀, arg₁ := ρ.source i.arg₁ i.arg₂ }
  | some .push => { i with arg₀ := ρ.source i.arg₀ i.arg₁ }
  | some .pop => { i with arg₀ := ρ.register i.arg₀ }
  | some .store => { i with arg₀ := ρ.address i.arg₀, arg₁ := ρ.source i.arg₁ i.arg₂ }
  | some .load => { i with arg₀ := ρ.address i.arg₀, arg₁ := ρ.register i.arg₁ }
  | some .nop | some .halt | some .finish | none => i

/-- The program with the registers and addresses of each whole instruction named anew. -/
def Program.renamed (program : Program) : Program :=
  program.mapInstructions (Instruction.renamed ρ)

/-- The operand with its register named anew. -/
def Operand.renamed : Operand → Operand
  | .immediate value => .immediate value
  | .register id => .register (ρ.register id)

/-- The operation with its registers and its address named anew. -/
def Operation.renamed : Operation → Operation
  | .compute op destination source => .compute op (ρ.register destination) (source.renamed ρ)
  | .push source => .push (source.renamed ρ)
  | .pop destination => .pop (ρ.register destination)
  | .store a source => .store (ρ.address a) (source.renamed ρ)
  | .load a destination => .load (ρ.address a) (ρ.register destination)
  | operation => operation

/-- The effect on the registers and cells named anew. -/
def Effect.renamed : Effect → Effect
  | .write id value => .write (ρ.register id) value
  | .store a value => .store (ρ.address a) value
  | .pop id value => .pop (ρ.register id) value
  | effect => effect

theorem Operand.ofWords_renamed (value flag : Word) :
    ofWords (ρ.source value flag) flag = (ofWords value flag).renamed ρ := by
  unfold ofWords Renaming.source
  split <;> rfl

@[simp]
theorem Instruction.opcode_renamed (i : Instruction) : (i.renamed ρ).opcode = i.opcode := by
  unfold renamed
  split <;> rfl

/-- **A renamed instruction asks for the renamed operation.** -/
theorem Instruction.operation?_renamed (i : Instruction) :
    (i.renamed ρ).operation? = i.operation?.map (Operation.renamed ρ) := by
  unfold operation?
  rw [opcode_renamed]
  unfold renamed
  cases Opcode.decode? i.opcode with
  | none => rfl
  | some o => cases o <;> simp [Opcode.operation, Operation.renamed, Operand.ofWords_renamed]

end Renamed

/-! ### Renamed machines -/

/-- Every register has a number among the words. -/
theorem Config.Valid.registers_lt {c : Config} (h : c.Valid) : c.registers < 2 ^ 31 :=
  Nat.lt_of_le_of_lt (h .registers).2 (by decide)

/-- Every word of memory has a number among the words. -/
theorem Config.Valid.memory_lt {c : Config} (h : c.Valid) : c.memory < 2 ^ 31 :=
  Nat.lt_of_le_of_lt (h .memory).2 (by decide)

namespace Machine

variable {config : Config} {ρ : Renaming config} {m m' : Machine} {program : Program}

/-- `m'` is `m` with its registers and memory cells permuted. -/
structure RenamedTo (ρ : Renaming config) (m m' : Machine) : Prop where
  /-- The configurations are the same. -/
  config_eq : m'.config = m.config
  /-- The machines stand at the same position. -/
  pc_eq : m'.pc = m.pc
  /-- The registers are permuted. -/
  registers : m.registers.PermutedTo ρ.registers m'.registers
  /-- The memory cells are permuted. -/
  memory : m.memory.PermutedTo ρ.memory m'.memory
  /-- The stacks are the same. -/
  stack_eq : m'.stack = m.stack
  /-- The machines have the same status. -/
  status_eq : m'.status = m.status
  /-- They have executed as many instructions. -/
  steps_eq : m'.steps = m.steps
  /-- They have passed over as many unknown opcodes. -/
  skipped_eq : m'.skipped = m.skipped

theorem powerOn_renamedTo (ρ : Renaming config) :
    (powerOn config).RenamedTo ρ (powerOn config) where
  config_eq := rfl
  pc_eq := rfl
  registers := Bank.zeros_permutedTo ρ.registers
  memory := Bank.zeros_permutedTo ρ.memory
  stack_eq := rfl
  status_eq := rfl
  steps_eq := rfl
  skipped_eq := rfl

namespace RenamedTo

/-! ### Plans of renamed machines -/

theorem follows_readRegister (h : m.RenamedTo ρ m') (hconfig : config.Valid) (id : Word) :
    Follows (fun _ => False) Eq (m.readRegister id) (m'.readRegister (ρ.register id)) := by
  unfold readRegister Renaming.register
  rw [h.registers.get?_renamed hconfig.registers_lt id]
  cases hv : m.registers.get? id with
  | some v => exact .ok rfl
  | none =>
    rw [(h.registers.renamed_of_get?_eq_none hv).1]
    exact .error _

theorem follows_readMemory (h : m.RenamedTo ρ m') (hconfig : config.Valid) (a : Word) :
    Follows (fun _ => False) Eq (m.readMemory a) (m'.readMemory (ρ.address a)) := by
  unfold readMemory Renaming.address
  rw [h.memory.get?_renamed hconfig.memory_lt a, h.memory.size_eq, h.memory.size_eq']
  cases hv : m.memory.get? a with
  | some v => exact .ok rfl
  | none =>
    rw [(h.memory.renamed_of_get?_eq_none hv).1]
    exact .error _

theorem follows_resolve (h : m.RenamedTo ρ m') (hconfig : config.Valid) (source : Operand) :
    Follows (fun _ => False) Eq (m.resolve source) (m'.resolve (source.renamed ρ)) := by
  cases source with
  | immediate value => exact .ok rfl
  | register id => exact h.follows_readRegister hconfig id

theorem follows_effect (h : m.RenamedTo ρ m') (hconfig : config.Valid) (operation : Operation) :
    Follows (fun _ => False) (fun effect effect' => effect' = effect.renamed ρ)
      (m.effect operation) (m'.effect (operation.renamed ρ)) := by
  cases operation with
  | nop | halt | finish => exact .ok rfl
  | compute op destination source =>
    refine (h.follows_readRegister hconfig destination).bind ?_
    rintro old _ rfl
    refine (h.follows_resolve hconfig source).bind ?_
    rintro value _ rfl
    rw [h.pc_eq]
    split
    · exact .error _
    · exact .ok rfl
  | push source =>
    refine (h.follows_resolve hconfig source).bind ?_
    rintro value _ rfl
    rw [h.stack_eq]
    split
    · exact .error _
    · exact .ok rfl
  | pop destination =>
    refine (h.follows_readRegister hconfig destination).bind ?_
    rintro old _ rfl
    rw [h.stack_eq]
    split
    · exact .ok rfl
    · exact .error _
  | store a source =>
    refine (h.follows_resolve hconfig source).bind ?_
    rintro value _ rfl
    refine (h.follows_readMemory hconfig a).bind ?_
    rintro old _ rfl
    exact .ok rfl
  | load a destination =>
    refine (h.follows_readMemory hconfig a).bind ?_
    rintro value _ rfl
    refine (h.follows_readRegister hconfig destination).bind ?_
    rintro old _ rfl
    exact .ok rfl

/-- **What a machine plans, the renamed machine plans** on the renamed program, in other places. -/
theorem follows_plan (h : m.RenamedTo ρ m') (hconfig : config.Valid) (hpc : m.pc % 4 = 0) :
    Follows (fun _ => False) (fun effect effect' => effect' = effect.renamed ρ)
      (m.plan program) (m'.plan (program.renamed ρ)) := by
  refine follows_plan_of_fetch? h.pc_eq (Program.size_mapInstructions _ program)
    (Program.fetch?_mapInstructions _ hpc) fun i _ => ?_
  refine follows_effectOf h.pc_eq (congrArg Config.policy h.config_eq) (i.opcode_renamed ρ)
    (i.operation?_renamed ρ) rfl fun operation _ => ?_
  exact h.follows_effect hconfig operation

/-! ### Steps of renamed machines -/

theorem advanced (h : m.RenamedTo ρ m') : m.advanced.RenamedTo ρ m'.advanced :=
  { h with
    pc_eq := congrArg (· + 4) h.pc_eq
    steps_eq := congrArg (· + 1) h.steps_eq }

theorem commit (h : m.RenamedTo ρ m') (hconfig : config.Valid) (effect : Effect) :
    (m.commit effect).RenamedTo ρ (m'.commit (effect.renamed ρ)) := by
  cases effect with
  | nothing => exact h.advanced
  | write id value =>
    exact { h.advanced with registers := h.registers.set hconfig.registers_lt id value }
  | store a value =>
    exact { h.advanced with memory := h.memory.set hconfig.memory_lt a value }
  | push value => exact { h.advanced with stack_eq := congrArg (·.put value) h.stack_eq }
  | pop id value =>
    exact { h.advanced with
      registers := h.registers.set hconfig.registers_lt id value
      stack_eq := congrArg Stack.drop h.stack_eq }
  | stop status => exact { h.advanced with status_eq := rfl }
  | skip => exact { h.advanced with skipped_eq := congrArg (· + 1) h.skipped_eq }

end RenamedTo

/-- **Machines keep in step when they and their programs are renamed.** -/
theorem lockstep_renamed (hconfig : config.Valid) (ρ : Renaming config) (program : Program) :
    Lockstep program (program.renamed ρ) (fun _ => True)
      (fun m m' => m.pc % 4 = 0 ∧ m.RenamedTo ρ m') := by
  refine .of_follows (fun m _ => m.avoids_none program) (fun m m' hR => hR.2.status_eq) ?_
  rintro m m' ⟨hpc, h⟩ - -
  refine (h.follows_plan hconfig hpc).mono ?_
  rintro effect _ - rfl
  refine ⟨?_, h.commit hconfig effect⟩
  rw [pc_commit]
  omega

/-- **Renaming symmetry.**  A machine that was just built is run on a program, and on the same
program with its registers and addresses named anew.  Every step gives the same answer, errors
included, and leaves the same machine, but with its registers and memory cells permuted.  So do runs
until the machine stops. -/
theorem renamed_agrees (hm : Built config m) (ρ : Renaming config) (program : Program) :
    (∀ k, m.answer (program.renamed ρ) k = m.answer program k ∧
      (m.after program k).RenamedTo ρ (m.after (program.renamed ρ) k)) ∧
    (m.runUntilHalt (program.renamed ρ)).1 = (m.runUntilHalt program).1 ∧
      (m.runUntilHalt program).2.RenamedTo ρ (m.runUntilHalt (program.renamed ρ)).2 := by
  have hlockstep := lockstep_renamed hm.valid ρ program
  obtain rfl := hm.eq_powerOn
  have hstart : (powerOn config).pc % 4 = 0 ∧ (powerOn config).RenamedTo ρ (powerOn config) :=
    ⟨rfl, powerOn_renamedTo ρ⟩
  obtain ⟨hsteps, hresult, -, hrenamed⟩ := hlockstep.always hstart
  exact ⟨fun k => ⟨(hsteps k).1, (hsteps k).2.2⟩, hresult, hrenamed⟩

/-- The two registers and the two memory cells are exchanged.  The program stores a register, and
then names one that is not there under either name. -/
theorem renamed_agrees_exchange :
    Program.renamed
        (⟨Equiv.swap (0 : Fin 2) 1, Equiv.swap (0 : Fin 2) 1⟩ :
          Renaming { registers := 2, memory := 2 })
        #[0x01, 0, 5, 0, 0x0C, 1, 0, 1, 0x01, 7, 1, 0] =
      #[0x01, 1, 5, 0, 0x0C, 0, 1, 1, 0x01, 7, 1, 0] ∧
    ((powerOn { registers := 2, memory := 2 }).runUntilHalt
      #[0x01, 1, 5, 0, 0x0C, 0, 1, 1, 0x01, 7, 1, 0]).1 = .error (.invalidRegister 7) ∧
    (((powerOn { registers := 2, memory := 2 }).commit (.write 0 5)).commit (.store 1 5)).RenamedTo
      (⟨Equiv.swap (0 : Fin 2) 1, Equiv.swap (0 : Fin 2) 1⟩ :
        Renaming { registers := 2, memory := 2 })
      ((powerOn { registers := 2, memory := 2 }).runUntilHalt
        #[0x01, 1, 5, 0, 0x0C, 0, 1, 1, 0x01, 7, 1, 0]).2 := by
  have hprogram : Program.renamed
        (⟨Equiv.swap (0 : Fin 2) 1, Equiv.swap (0 : Fin 2) 1⟩ :
          Renaming { registers := 2, memory := 2 })
        #[0x01, 0, 5, 0, 0x0C, 1, 0, 1, 0x01, 7, 1, 0] =
      #[0x01, 1, 5, 0, 0x0C, 0, 1, 1, 0x01, 7, 1, 0] := by
    decide
  have hrun : (powerOn { registers := 2, memory := 2 }).runUntilHalt
        #[0x01, 0, 5, 0, 0x0C, 1, 0, 1, 0x01, 7, 1, 0] =
      (.error (.invalidRegister 7),
        ((powerOn { registers := 2, memory := 2 }).commit (.write 0 5)).commit (.store 1 5)) := by
    rw [runUntilHalt_eq]
    change runUntilHalt ((powerOn { registers := 2, memory := 2 }).commit (.write 0 5)) _ = _
    rw [runUntilHalt_eq]
    change runUntilHalt (((powerOn { registers := 2, memory := 2 }).commit (.write 0 5)).commit
      (.store 1 5)) _ = _
    rw [runUntilHalt_eq]
    rfl
  have hbuilt : Built { registers := 2, memory := 2 } (powerOn { registers := 2, memory := 2 }) :=
    .ofConfig rfl
  obtain ⟨-, hresult, hrenamed⟩ := renamed_agrees hbuilt
    ⟨Equiv.swap (0 : Fin 2) 1, Equiv.swap (0 : Fin 2) 1⟩
    #[0x01, 0, 5, 0, 0x0C, 1, 0, 1, 0x01, 7, 1, 0]
  rw [hprogram, hrun] at hresult hrenamed
  exact ⟨hprogram, hresult, hrenamed⟩

end Machine

end RegisterMachine
