import Mathlib.Data.List.Forall2
import RegisterMachine.Proofs.Invariant
import RegisterMachine.Proofs.Locality

/-!
# Words that are not used

Not every instruction uses all of its three operand words, and of a flag word only whether it is
zero.  The words that are not used may be any: they are not read, they do not show in an error, and
no policy asks for them.  Neither do the words behind the last whole instruction matter, as long as
there are as many of them.

## Main definitions

* `Instruction.UsesSame` and `Program.UsesSame` : instructions, or programs, that agree on the words
  that are used;
* `Call.UsesSame` : the same call on programs that agree in this way.

## Main statements

* `Instruction.UsesSame.operation?_eq` : instructions that agree ask for the same operation;
* `Machine.step_of_usesSame` : steps on programs that agree are the same;
* `Machine.usesSame_agrees` : so are calls, in any number and of any kind.
-/

namespace RegisterMachine

/-- The instructions have the same opcode word and agree on the operand words that are used.  A word
that is used as a flag is zero in both of them or in neither. -/
def Instruction.UsesSame (i i' : Instruction) : Prop :=
  i'.opcode = i.opcode ∧
    match Opcode.decode? i.opcode with
    | some .move | some .add | some .sub | some .mul | some .div | some .xor | some .or | some .and
    | some .store => i'.arg₀ = i.arg₀ ∧ i'.arg₁ = i.arg₁ ∧ (i'.arg₂ = 0 ↔ i.arg₂ = 0)
    | some .push => i'.arg₀ = i.arg₀ ∧ (i'.arg₁ = 0 ↔ i.arg₁ = 0)
    | some .pop => i'.arg₀ = i.arg₀
    | some .load => i'.arg₀ = i.arg₀ ∧ i'.arg₁ = i.arg₁
    | some .nop | some .halt | some .finish | none => True

/-- The programs have the same length and agree, instruction by instruction, on the words that are
used.  The words behind the last whole instruction may be any. -/
structure Program.UsesSame (program program' : Program) : Prop where
  /-- There are as many words. -/
  size_eq : program'.size = program.size
  /-- The instructions at the same place agree. -/
  fetched : ∀ j i i', program.fetch? (4 * j) = some i → program'.fetch? (4 * j) = some i' →
    i.UsesSame i'

/-- The calls are of the same kind, on programs that agree on the words that are used. -/
inductive Call.UsesSame : Call → Call → Prop
  | step {program program' : Program} : program.UsesSame program' →
      UsesSame (.step program) (.step program')
  | runUntilHalt {program program' : Program} : program.UsesSame program' →
      UsesSame (.runUntilHalt program) (.runUntilHalt program')
  | run {program program' : Program} (cancel : Cancellation) : program.UsesSame program' →
      UsesSame (.run program cancel) (.run program' cancel)
  | reset : UsesSame .reset .reset

/-! ### One instruction -/

theorem Operand.ofWords_eq_of_flag {value flag flag' : Word} (h : flag' = 0 ↔ flag = 0) :
    ofWords value flag' = ofWords value flag := by
  simp only [ofWords, h]

/-- **Instructions that agree ask for the same operation.** -/
theorem Instruction.UsesSame.operation?_eq {i i' : Instruction} (h : i.UsesSame i') :
    i'.operation? = i.operation? := by
  obtain ⟨hopcode, hused⟩ := h
  unfold operation?
  rw [hopcode]
  cases ho : Opcode.decode? i.opcode with
  | none => rfl
  | some o =>
    rw [ho] at hused
    refine congrArg some ?_
    cases o with
    | nop | halt | finish => rfl
    | move | add | sub | mul | div | xor | or | and | store =>
      obtain ⟨h₀, h₁, hflag⟩ := hused
      simp only [Opcode.operation, h₀, h₁, Operand.ofWords_eq_of_flag hflag]
    | push =>
      obtain ⟨h₀, hflag⟩ := hused
      simp only [Opcode.operation, h₀, Operand.ofWords_eq_of_flag hflag]
    | pop =>
      exact congrArg Operation.pop hused
    | load =>
      obtain ⟨h₀, h₁⟩ := hused
      simp only [Opcode.operation, h₀, h₁]

namespace Machine

variable {config : Config} {m : Machine} {program program' : Program}

theorem effectOf_of_usesSame {i i' : Instruction} (h : i.UsesSame i') :
    m.effectOf i' = m.effectOf i := by
  unfold effectOf
  rw [h.operation?_eq, h.1]

/-! ### Steps -/

/-- **A step is the same on programs that agree.** -/
theorem step_of_usesSame (hm : m.Invariant config) (h : program.UsesSame program') :
    m.step program' = m.step program := by
  refine step_of_effectOf_eq h.size_eq fun i i' _ hi hi' => effectOf_of_usesSame ?_
  rw [hm.pc_eq] at hi hi'
  exact h.fetched m.steps i i' hi hi'

/-! ### Runs -/

theorem runUntilHalt_of_usesSame (hm : m.Invariant config) (h : program.UsesSame program') :
    m.runUntilHalt program' = m.runUntilHalt program := by
  fun_induction runUntilHalt m program with
  | case1 m m' hstep ih =>
    have hm' := hm.step program
    rw [hstep] at hm'
    rw [runUntilHalt_eq, step_of_usesSame hm h, hstep]
    exact ih hm'
  | case2 m hstopped =>
    rw [runUntilHalt_eq, step_of_usesSame hm h]
    split
    · exact absurd ‹_› (hstopped _)
    · rfl

theorem run_of_usesSame (hm : m.Invariant config) (h : program.UsesSame program')
    (cancel : Cancellation) : m.run program' cancel = m.run program cancel := by
  fun_induction run m program cancel with
  | case1 m cancel hdue => rw [run_eq, if_pos hdue]
  | case2 m cancel hdue m' hstep ih =>
    have hm' := hm.step program
    rw [hstep] at hm'
    rw [run_eq, if_neg hdue, step_of_usesSame hm h, hstep]
    exact ih hm'
  | case3 m cancel hdue m' hstep | case4 m cancel hdue m' hstep | case5 m cancel hdue e m' hstep =>
    rw [run_eq, if_neg hdue, step_of_usesSame hm h, hstep]

/-! ### Calls -/

theorem call_of_usesSame {c c' : Call} (hm : m.Invariant config) (h : c.UsesSame c') :
    m.call c' = m.call c := by
  cases h with
  | step h => rw [call, call, step_of_usesSame hm h]
  | runUntilHalt h => rw [call, call, runUntilHalt_of_usesSame hm h]
  | run cancel h => rw [call, call, run_of_usesSame hm h]
  | reset => rfl

theorem calls_of_usesSame {cs cs' : List Call} (hm : m.Invariant config)
    (h : List.Forall₂ Call.UsesSame cs cs') : m.calls cs' = m.calls cs := by
  induction h generalizing m with
  | nil => rfl
  | @cons c c' cs cs' hc _ ih => rw [calls, calls, call_of_usesSame hm hc, ih (hm.call c)]

/-- **Words that are not used do not matter.**  After any calls on a machine that was just built,
under either policy, further calls give the same answers, errors included, and leave the same
machine, when each of them is made on a program that agrees with the one it was made on in the words
that are used. -/
theorem usesSame_agrees (hm : Built config m) (before : List Call) {cs cs' : List Call}
    (h : List.Forall₂ Call.UsesSame cs cs') :
    (m.calls before).2.calls cs' = (m.calls before).2.calls cs := by
  obtain rfl := hm.eq_powerOn
  exact calls_of_usesSame ((Invariant.powerOn config).calls before) h

/-- A register is pushed, an unknown opcode passed over, a word loaded, and a register divided by
itself, which holds zero.  The other program has other flags that are not zero, other words where
none is used, and another word behind the last instruction. -/
theorem usesSame_agrees_division :
    ((powerOn { registers := 2, memory := 1 }).calls
      [.step #[0x0A, 1, 1, 5, 0x42, 1, 2, 3, 0x0D, 0, 0, 9, 0x05, 0, 0, 7, 8]]).2.calls
        [.runUntilHalt #[0x0A, 1, -7, 6, 0x42, 9, 9, 9, 0x0D, 0, 0, -1, 0x05, 0, 0, 1, -3],
          .run #[0x0A, 1, -7, 6, 0x42, 9, 9, 9, 0x0D, 0, 0, -1, 0x05, 0, 0, 1, -3] .never] =
    ((powerOn { registers := 2, memory := 1 }).calls
      [.step #[0x0A, 1, 1, 5, 0x42, 1, 2, 3, 0x0D, 0, 0, 9, 0x05, 0, 0, 7, 8]]).2.calls
        [.runUntilHalt #[0x0A, 1, 1, 5, 0x42, 1, 2, 3, 0x0D, 0, 0, 9, 0x05, 0, 0, 7, 8],
          .run #[0x0A, 1, 1, 5, 0x42, 1, 2, 3, 0x0D, 0, 0, 9, 0x05, 0, 0, 7, 8] .never] := by
  have hprogram : Program.UsesSame
      #[0x0A, 1, 1, 5, 0x42, 1, 2, 3, 0x0D, 0, 0, 9, 0x05, 0, 0, 7, 8]
      #[0x0A, 1, -7, 6, 0x42, 9, 9, 9, 0x0D, 0, 0, -1, 0x05, 0, 0, 1, -3] := by
    refine ⟨rfl, fun j i i' hi hi' => ?_⟩
    obtain ⟨hfits, -⟩ := Program.fetch?_eq_some_iff.1 hi
    have hj : 4 * j + 4 ≤ 17 := hfits
    obtain rfl | rfl | rfl | rfl : j = 0 ∨ j = 1 ∨ j = 2 ∨ j = 3 := by omega
    all_goals
      cases hi
      cases hi'
    · exact ⟨rfl, rfl, by decide⟩
    · exact ⟨rfl, trivial⟩
    · exact ⟨rfl, rfl, rfl⟩
    · exact ⟨rfl, rfl, rfl, by decide⟩
  have hbuilt : Built { registers := 2, memory := 1 } (powerOn { registers := 2, memory := 1 }) :=
    .ofConfig rfl
  exact usesSame_agrees hbuilt _
    (.cons (.runUntilHalt hprogram) (.cons (.run .never hprogram) .nil))

end Machine

end RegisterMachine
