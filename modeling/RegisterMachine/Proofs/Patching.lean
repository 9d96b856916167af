import RegisterMachine.Proofs.Policies

/-!
# Unknown opcodes as nops

The lenient policy treats a word that is no opcode as a nop.  This can be said without a policy:
where such a word begins an instruction of the program, it is overwritten with the code of the nop.
On the program that comes out of this, every machine does what a lenient one does on the original;
only the words that were passed over are not counted any more.

## Main definitions

* `Program.patched` and `Instruction.patched` : a program, or one of its instructions, with the
  unknown opcodes overwritten;
* `Machine.uncounted` : a machine that has counted no unknown opcode.

## Main statements

* `Program.fetch?_patched` : the instructions of the patched program;
* `Machine.lockstep_patched` : machines on the patched program keep in step with lenient ones;
* `Machine.patched_agrees` : what this means for machines that were just built.
-/

namespace RegisterMachine

/-! ### Patched programs -/

/-- The word that an instruction begins with, unless it is no opcode: then the code of the nop. -/
def Opcode.patch (w : Word) : Word :=
  if decode? w = none then nop.code else w

/-- The instruction with its first word patched. -/
def Instruction.patched (i : Instruction) : Instruction :=
  { i with opcode := Opcode.patch i.opcode }

/-- The program with the first word patched of every whole instruction. -/
def Program.patched (program : Program) : Program :=
  program.mapIdx fun j w => if j % 4 = 0 ∧ j + 4 ≤ program.size then Opcode.patch w else w

namespace Instruction

variable {i : Instruction}

theorem patched_of_operation?_ne_none (h : i.operation? ≠ none) : i.patched = i := by
  have hopcode : Opcode.decode? i.opcode ≠ none := fun hnone => h (Option.map_eq_none_iff.2 hnone)
  unfold patched Opcode.patch
  rw [if_neg hopcode]

theorem operation?_patched_of_eq_none (h : i.operation? = none) :
    i.patched.operation? = some .nop := by
  have hopcode : Opcode.decode? i.opcode = none := Option.map_eq_none_iff.1 h
  unfold patched Opcode.patch
  rw [if_pos hopcode]
  rfl

end Instruction

namespace Program

variable {program : Program} {pc : Nat}

@[simp]
theorem size_patched (program : Program) : program.patched.size = program.size :=
  Array.size_mapIdx

theorem getElem?_patched_opcode (hpc : pc % 4 = 0) (hfits : pc + 4 ≤ program.size) :
    program.patched[pc]? = program[pc]?.map Opcode.patch := by
  unfold patched
  simp [Array.getElem?_mapIdx, hpc, hfits]

theorem getElem?_patched_operand (hpc : pc % 4 ≠ 0) : program.patched[pc]? = program[pc]? := by
  unfold patched
  simp [Array.getElem?_mapIdx, hpc]

/-- **The instructions of a patched program are the patched instructions** of the program. -/
theorem fetch?_patched (hpc : pc % 4 = 0) :
    program.patched.fetch? pc = (program.fetch? pc).map Instruction.patched := by
  cases hi : program.fetch? pc with
  | none =>
    show program.patched.fetch? pc = none
    rwa [fetch?_eq_none_iff, size_patched, ← fetch?_eq_none_iff]
  | some i =>
    obtain ⟨hfits, h₀, h₁, h₂, h₃⟩ := fetch?_eq_some_iff.1 hi
    show program.patched.fetch? pc = some i.patched
    rw [fetch?_eq_some_iff, size_patched, getElem?_patched_opcode hpc hfits,
      getElem?_patched_operand (by omega), getElem?_patched_operand (by omega),
      getElem?_patched_operand (by omega), h₀]
    exact ⟨hfits, rfl, h₁, h₂, h₃⟩

end Program

namespace Machine

/-- The same machine with no unknown opcode counted. -/
def uncounted (m : Machine) : Machine :=
  { m with skipped := 0 }

variable {m m' : Machine} {program : Program} {policy : OpcodePolicy} {effect : Effect}

/-! ### Steps on patched programs -/

theorem effect_uncounted (m : Machine) (operation : Operation) :
    m.uncounted.effect operation = m.effect operation := by
  cases operation <;> rfl

theorem commit_uncounted (m : Machine) (h : effect ≠ .skip) :
    m.uncounted.commit effect = (m.commit effect).uncounted := by
  cases effect with
  | skip => exact absurd rfl h
  | _ => rfl

/-- What a lenient machine plans, one on the patched program plans, apart from what is counted. -/
theorem follows_plan_patched (policy : OpcodePolicy) (hlenient : m.config.policy = .lenient)
    (hpc : m.pc % 4 = 0) :
    Follows (fun _ => False)
      (fun effect effect' => (m.withPolicy policy).uncounted.commit effect' =
        ((m.commit effect).withPolicy policy).uncounted)
      (m.plan program) ((m.withPolicy policy).uncounted.plan program.patched) := by
  have hfetch : program.patched.fetch? m.pc = (program.fetch? m.pc).map Instruction.patched :=
    Program.fetch?_patched hpc
  cases hi : program.fetch? m.pc with
  | none =>
    rw [hi] at hfetch
    have hi' : program.patched.fetch? (m.withPolicy policy).uncounted.pc = none := hfetch
    rw [plan_of_fetch?_eq_none hi, plan_of_fetch?_eq_none hi', Program.size_patched]
    exact .error _
  | some i =>
    rw [hi] at hfetch
    have hi' : program.patched.fetch? (m.withPolicy policy).uncounted.pc = some i.patched := hfetch
    rw [plan_of_fetch?_eq_some hi, plan_of_fetch?_eq_some hi']
    cases hoperation : i.operation? with
    | some operation =>
      have hpatched : i.patched = i :=
        Instruction.patched_of_operation?_ne_none (by simp [hoperation])
      rw [hpatched, effectOf_of_operation?_eq_some hoperation,
        effectOf_of_operation?_eq_some hoperation, effect_uncounted, effect_withPolicy]
      refine (Follows.refl _).mono ?_
      rintro effect _ heffect rfl
      have hne : effect ≠ .skip := by
        rintro rfl
        exact m.effect_ne_ok_skip operation heffect
      rw [commit_uncounted _ hne, commit_withPolicy]
    | none =>
      -- the one machine counts the word, the other one executes a nop
      have hskip : m.effectOf i = .ok .skip :=
        effectOf_eq_ok_iff.2 (.inr ⟨hoperation, hlenient, rfl⟩)
      have hnop := Instruction.operation?_patched_of_eq_none hoperation
      rw [hskip, effectOf_of_operation?_eq_some hnop]
      exact .ok rfl

/-- **Machines on the patched program keep in step** with lenient ones on the original. -/
theorem lockstep_patched (policy : OpcodePolicy) (program : Program) :
    Lockstep program program.patched (fun _ => True)
      (fun m m' => m.config.policy = .lenient ∧ m.pc % 4 = 0 ∧
        m' = (m.withPolicy policy).uncounted) := by
  refine .of_follows (fun m _ => m.avoids_none program) ?_ ?_
  · rintro m _ ⟨-, -, rfl⟩
    rfl
  · rintro m _ ⟨hlenient, hpc, rfl⟩ - -
    refine (follows_plan_patched policy hlenient hpc).mono fun effect effect' _ hcommit => ?_
    refine ⟨?_, ?_, hcommit⟩
    · rw [config_commit, hlenient]
    · rw [pc_commit]
      omega

/-- **Patching unknown opcodes.**  A lenient machine on a program, and a machine of the same sizes
under any policy on the patched program, that were both just built, give the same answers to every
step, errors included, and always are the same machine but for the policy and the count of unknown
opcodes, which stays zero on the patched program.  So do runs until they stop. -/
theorem patched_agrees (config : Config) (policy : OpcodePolicy) (program : Program)
    (hm : Built { config with policy := .lenient } m)
    (hm' : Built { config with policy := policy } m') :
    (∀ k, m'.answer program.patched k = m.answer program k ∧
      m'.after program.patched k = ((m.after program k).withPolicy policy).uncounted) ∧
    m'.runUntilHalt program.patched =
      ((m.runUntilHalt program).1, ((m.runUntilHalt program).2.withPolicy policy).uncounted) := by
  obtain rfl := hm.eq_powerOn
  obtain rfl := hm'.eq_powerOn
  have hlockstep := lockstep_patched policy program
  have hstart : (powerOn { config with policy := .lenient }).config.policy = .lenient ∧
      (powerOn { config with policy := .lenient }).pc % 4 = 0 ∧
        powerOn { config with policy := policy } =
          ((powerOn { config with policy := .lenient }).withPolicy policy).uncounted :=
    ⟨rfl, rfl, rfl⟩
  refine ⟨fun k => ⟨?_, ?_⟩, ?_⟩
  · exact hlockstep.answer_eq hstart fun _ _ => trivial
  · exact (hlockstep.after hstart fun _ _ => trivial).2.2
  · obtain ⟨k, hk, -⟩ := (powerOn { config with policy := .lenient }).exists_stopsAt program
    obtain ⟨hresult, -, -, hmachine⟩ := hlockstep.runUntilHalt hstart hk fun _ _ => trivial
    exact Prod.ext hresult hmachine

/-- Two unknown opcodes stand around a move and before a division by zero.  A strict machine comes
to the division once they are patched; the last two words are no instruction and stay. -/
theorem patched_agrees_division :
    Program.patched #[0x1FF, 7, 7, 7, 0x01, 0, 5, 0, -1, 0, 0, 0, 0x05, 0, 0, 0, -1, 8] =
        #[0x00, 7, 7, 7, 0x01, 0, 5, 0, 0x00, 0, 0, 0, 0x05, 0, 0, 0, -1, 8] ∧
      ((powerOn { registers := 1, policy := .strict }).runUntilHalt
        #[0x00, 7, 7, 7, 0x01, 0, 5, 0, 0x00, 0, 0, 0, 0x05, 0, 0, 0, -1, 8]).1 =
          .error (.divisionByZero 12) := by
  have hpatched : Program.patched
        #[0x1FF, 7, 7, 7, 0x01, 0, 5, 0, -1, 0, 0, 0, 0x05, 0, 0, 0, -1, 8] =
      #[0x00, 7, 7, 7, 0x01, 0, 5, 0, 0x00, 0, 0, 0, 0x05, 0, 0, 0, -1, 8] := by
    decide
  have hlenient : Built { registers := 1 } (powerOn { registers := 1 }) := .ofConfig rfl
  have hstrict : Built { registers := 1, policy := .strict }
      (powerOn { registers := 1, policy := .strict }) := .ofConfig rfl
  obtain ⟨-, hrun⟩ := patched_agrees { registers := 1 } .strict
    #[0x1FF, 7, 7, 7, 0x01, 0, 5, 0, -1, 0, 0, 0, 0x05, 0, 0, 0, -1, 8] hlenient hstrict
  refine ⟨hpatched, ?_⟩
  rw [← hpatched, hrun, runUntilHalt_eq]
  change (runUntilHalt ((powerOn { registers := 1 }).commit .skip) _).1 = _
  rw [runUntilHalt_eq]
  change (runUntilHalt (((powerOn { registers := 1 }).commit .skip).commit (.write 0 5)) _).1 = _
  rw [runUntilHalt_eq]
  change (runUntilHalt ((((powerOn { registers := 1 }).commit .skip).commit (.write 0 5)).commit
    .skip) _).1 = _
  rw [runUntilHalt_eq]
  rfl

end Machine

end RegisterMachine
