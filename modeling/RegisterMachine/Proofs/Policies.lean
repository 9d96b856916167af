import Mathlib.Data.Nat.Find
import Mathlib.Order.Monotone.Basic
import RegisterMachine.Proofs.Checks
import RegisterMachine.Proofs.Invariant
import RegisterMachine.Proofs.Lockstep

/-!
# The two policies

The policy of a machine matters only where the next instruction begins with a word that is no
opcode.  Up to there a strict machine does what a lenient one does, and there it faults with the
word and its position, where the lenient one counts the word and goes on.  So the count of a lenient
run tells whether a strict one would have come through.

## Main definitions

* `Machine.withPolicy` : the machine under another policy;
* `Machine.AtUnknown` and `Machine.MeetsUnknown` : the next instruction of a machine, or the first
  such one that it comes to, begins with a word that is no opcode.

## Main statements

* `Machine.lockstep_withPolicy` : the policy does not show as long as only opcodes are met;
* `Machine.policies_agree` : what runs under the two policies have in common, and where they part.
-/

namespace RegisterMachine

namespace Machine

/-- The same machine under another policy. -/
def withPolicy (m : Machine) (policy : OpcodePolicy) : Machine :=
  { m with config := { m.config with policy := policy } }

/-- The machine is running, and its next instruction begins with `w`, which is no opcode. -/
def AtUnknown (m : Machine) (program : Program) (w : Word) : Prop :=
  m.status = .running ∧ Opcode.decode? w = none ∧
    ∃ i, program.fetch? m.pc = some i ∧ i.opcode = w

/-- Step number `k` is the first one that comes to a word that is no opcode, and the word is `w`. -/
structure MeetsUnknown (m : Machine) (program : Program) (k : Nat) (w : Word) : Prop where
  /-- The steps before it come to opcodes. -/
  known : ∀ i < k, ∀ v, ¬ (m.after program i).AtUnknown program v
  /-- This one does not. -/
  atUnknown : (m.after program k).AtUnknown program w

variable {config : Config} {m m' : Machine} {program : Program} {policy : OpcodePolicy} {w : Word}
  {k : Nat}

/-! ### What the policy decides -/

theorem effect_withPolicy (m : Machine) (policy : OpcodePolicy) (operation : Operation) :
    (m.withPolicy policy).effect operation = m.effect operation := by
  cases operation <;> rfl

theorem commit_withPolicy (m : Machine) (policy : OpcodePolicy) (effect : Effect) :
    (m.withPolicy policy).commit effect = (m.commit effect).withPolicy policy := by
  cases effect <;> rfl

/-- Where the next instruction begins with an opcode, its checks do not ask for the policy. -/
theorem plan_withPolicy (policy : OpcodePolicy) (hrunning : m.status = .running)
    (hknown : ∀ w, ¬ m.AtUnknown program w) :
    (m.withPolicy policy).plan program = m.plan program := by
  cases hi : program.fetch? m.pc with
  | none =>
    have hi' : program.fetch? (m.withPolicy policy).pc = none := hi
    rw [plan_of_fetch?_eq_none hi, plan_of_fetch?_eq_none hi']
    rfl
  | some i =>
    have hi' : program.fetch? (m.withPolicy policy).pc = some i := hi
    rw [plan_of_fetch?_eq_some hi, plan_of_fetch?_eq_some hi']
    cases hoperation : i.operation? with
    | some operation =>
      rw [effectOf_of_operation?_eq_some hoperation, effectOf_of_operation?_eq_some hoperation,
        effect_withPolicy]
    | none =>
      have hunknown : Opcode.decode? i.opcode = none := Option.map_eq_none_iff.1 hoperation
      exact absurd ⟨hrunning, hunknown, i, hi, rfl⟩ (hknown i.opcode)

/-- Where it does not, the lenient policy plans to pass over the word. -/
theorem AtUnknown.plan_lenient (h : m.AtUnknown program w) (hlenient : m.config.policy = .lenient) :
    m.plan program = .ok .skip := by
  obtain ⟨-, hunknown, i, hi, rfl⟩ := h
  have hoperation : i.operation? = none := Option.map_eq_none_iff.2 hunknown
  rw [plan_of_fetch?_eq_some hi]
  exact effectOf_eq_ok_iff.2 (.inr ⟨hoperation, hlenient, rfl⟩)

/-- The strict policy refuses it. -/
theorem AtUnknown.plan_strict (h : m.AtUnknown program w) (hstrict : m.config.policy = .strict) :
    m.plan program = .error (.unknownOpcode w m.pc) := by
  obtain ⟨-, hunknown, i, hi, rfl⟩ := h
  have hoperation : i.operation? = none := Option.map_eq_none_iff.2 hunknown
  rw [plan_of_fetch?_eq_some hi]
  simp [effectOf, hoperation, hstrict]

theorem error_ne_unknownOpcode_of_mem_opcodeChecks (m : Machine) (arg₀ arg₁ arg₂ : Word)
    (o : Opcode) :
    ∀ c ∈ m.opcodeChecks arg₀ arg₁ arg₂ o, ∀ w pc, c.error ≠ .unknownOpcode w pc := by
  cases o <;>
    simp [opcodeChecks, registerCheck, sourceCheck, addressCheck, divisorCheck, roomCheck,
      topCheck]

/-- No step reports a word as unknown but one that comes to it. -/
theorem atUnknown_of_step_eq {pc : Nat} (h : (m.step program).1 = .error (.unknownOpcode w pc)) :
    m.AtUnknown program w := by
  have hstep : m.step program = (.error (.unknownOpcode w pc), (m.step program).2) := Prod.ext h rfl
  obtain ⟨-, hrunning, hplan⟩ := step_eq_error_iff.1 hstep
  cases hi : program.fetch? m.pc with
  | none =>
    rw [plan_of_fetch?_eq_none hi] at hplan
    cases hplan
  | some i =>
    rw [plan_of_fetch?_eq_some hi] at hplan
    obtain ⟨c, hc, herror⟩ := ((guards_effectOf i _).1 hplan).exists_mem
    unfold checks at hc
    cases ho : Opcode.decode? i.opcode with
    | some o =>
      -- the checks on an opcode have other errors
      rw [ho] at hc
      exact absurd herror (m.error_ne_unknownOpcode_of_mem_opcodeChecks _ _ _ o c hc w pc)
    | none =>
      rw [ho] at hc
      obtain rfl := List.mem_singleton.1 hc
      cases herror
      exact ⟨hrunning, ho, i, hi, rfl⟩

/-! ### Steps under the two policies -/

/-- **The policy does not show** as long as the next instruction begins with an opcode. -/
theorem lockstep_withPolicy (policy : OpcodePolicy) (program : Program) :
    Lockstep program program (fun m => ∀ w, ¬ m.AtUnknown program w)
      (fun m m' => m' = m.withPolicy policy) := by
  refine .of_follows (fun m _ => m.avoids_none program) ?_ ?_
  · rintro m _ rfl
    rfl
  · rintro m _ rfl hknown hrunning
    rw [plan_withPolicy policy hrunning hknown]
    refine (Follows.refl _).mono ?_
    rintro effect _ - rfl
    exact commit_withPolicy m policy effect

/-- A lenient machine passes over the word and runs on. -/
theorem AtUnknown.step_lenient (h : m.AtUnknown program w) (hlenient : m.config.policy = .lenient) :
    m.step program = (.ok .running, m.commit .skip) := by
  have hstatus : (m.commit .skip).status = .running := h.1
  rw [step_of_plan_eq_ok h.1 (h.plan_lenient hlenient), hstatus]

/-- A strict one faults. -/
theorem AtUnknown.step_strict (h : m.AtUnknown program w) (hstrict : m.config.policy = .strict) :
    m.step program = (.error (.unknownOpcode w m.pc), m) :=
  step_of_plan_eq_error h.1 (h.plan_strict hstrict)

/-- The words that were passed over stay counted. -/
theorem skipped_after_monotone (m : Machine) (program : Program) :
    Monotone fun k => (m.after program k).skipped := by
  refine monotone_nat_of_le_succ fun k => ?_
  show (m.after program k).skipped ≤ (m.after program (k + 1)).skipped
  rw [after_succ']
  rcases (m.after program k).step_eq_or_commit program with heq | ⟨effect, -, heq⟩
  · rw [heq]
  · rw [heq, skipped_commit]
    split <;> omega

/-! ### The first word that is no opcode -/

/-- What a machine comes to, it comes to for the first time. -/
theorem exists_meetsUnknown {j : Nat} {v : Word} (h : (m.after program j).AtUnknown program v) :
    ∃ k ≤ j, ∃ w, m.MeetsUnknown program k w := by
  classical
  have hsome : ∃ k, ∃ w, (m.after program k).AtUnknown program w := ⟨j, v, h⟩
  obtain ⟨w, hw⟩ := Nat.find_spec hsome
  refine ⟨Nat.find hsome, Nat.find_min' hsome ⟨v, h⟩, w, fun i hi u hu => ?_, hw⟩
  exact Nat.find_min hsome hi ⟨u, hu⟩

theorem AtUnknown.step_after_lenient (h : (m.after program k).AtUnknown program w)
    (hlenient : m.config.policy = .lenient) :
    m.answer program k = .ok .running ∧
      m.after program (k + 1) = (m.after program k).commit .skip := by
  have hpolicy : (m.after program k).config.policy = .lenient := by
    rw [config_after, hlenient]
  have hstep := h.step_lenient hpolicy
  rw [step_after] at hstep
  exact Prod.mk.inj hstep

/-- **A strict machine faults at the first word that is no opcode**, and it has become what the
lenient one is there. -/
theorem MeetsUnknown.step_strict (h : m.MeetsUnknown program k w) :
    ((m.withPolicy .strict).after program k).step program =
      (.error (.unknownOpcode w (m.after program k).pc),
        (m.after program k).withPolicy .strict) := by
  rw [(lockstep_withPolicy .strict program).after rfl h.known]
  have hat : ((m.after program k).withPolicy .strict).AtUnknown program w := h.atUnknown
  exact hat.step_strict rfl

theorem MeetsUnknown.runUntilHalt_strict (h : m.MeetsUnknown program k w)
    (hlenient : m.config.policy = .lenient) :
    (m.withPolicy .strict).runUntilHalt program =
      (.error (.unknownOpcode w (m.after program k).pc),
        (m.after program k).withPolicy .strict) := by
  have hlockstep := lockstep_withPolicy .strict program
  -- the lenient machine runs on there, so it had not stopped before
  obtain ⟨hanswer, -⟩ := h.atUnknown.step_after_lenient hlenient
  have hstops : (m.withPolicy .strict).StopsAt program k := by
    refine ⟨fun i hi => ?_, ?_⟩
    · rw [hlockstep.answer_eq rfl fun j hj => h.known j (Nat.lt_of_le_of_lt hj hi)]
      exact answer_eq_running_of_le hanswer (Nat.le_of_lt hi)
    · rw [answer, h.step_strict]
      rintro ⟨⟩
  rw [runUntilHalt_of_stopsAt hstops, ← step_after, h.step_strict]

/-! ### Runs that come to opcodes only -/

theorem runUntilHalt_withPolicy (policy : OpcodePolicy)
    (hknown : ∀ j w, ¬ (m.after program j).AtUnknown program w) :
    (m.withPolicy policy).runUntilHalt program =
      ((m.runUntilHalt program).1, (m.runUntilHalt program).2.withPolicy policy) := by
  obtain ⟨k, hk, -⟩ := m.exists_stopsAt program
  obtain ⟨hresult, hmachine⟩ :=
    (lockstep_withPolicy policy program).runUntilHalt rfl hk fun i _ => hknown i
  exact Prod.ext hresult hmachine

/-- The result of a strict run tells whether the lenient one comes to opcodes only. -/
theorem runUntilHalt_strict_ne_iff (hlenient : m.config.policy = .lenient) :
    (∀ w pc, ((m.withPolicy .strict).runUntilHalt program).1 ≠ .error (.unknownOpcode w pc)) ↔
      ∀ j w, ¬ (m.after program j).AtUnknown program w := by
  constructor
  · intro h j v hv
    obtain ⟨k, -, w, hmeets⟩ := exists_meetsUnknown hv
    exact h _ _ (congrArg Prod.fst (hmeets.runUntilHalt_strict hlenient))
  · intro hknown w pc herror
    obtain ⟨k, hk, -⟩ := m.exists_stopsAt program
    rw [runUntilHalt_withPolicy .strict hknown, runUntilHalt_of_stopsAt hk] at herror
    exact hknown k w (atUnknown_of_step_eq herror)

/-- So does the count of the lenient one. -/
theorem skipped_runUntilHalt_eq_zero_iff (hlenient : config.policy = .lenient)
    (program : Program) :
    ((powerOn config).runUntilHalt program).2.skipped = 0 ↔
      ∀ j w, ¬ ((powerOn config).after program j).AtUnknown program w := by
  constructor
  · intro hzero j w h
    obtain ⟨hanswer, hcommit⟩ := h.step_after_lenient hlenient
    obtain ⟨n, hn, -⟩ := (powerOn config).exists_stopsAt program
    have hlt : j < n := by
      by_contra hle
      exact hn.stops (answer_eq_running_of_le hanswer (Nat.le_of_not_lt hle))
    -- what was counted at step `j` is counted at the end
    have hle : ((powerOn config).after program (j + 1)).skipped ≤
        ((powerOn config).after program (n + 1)).skipped :=
      skipped_after_monotone _ program (by omega)
    rw [runUntilHalt_of_stopsAt hn] at hzero
    change ((powerOn config).after program (n + 1)).skipped = 0 at hzero
    rw [hcommit, skipped_commit, if_pos rfl] at hle
    omega
  · intro hknown
    -- the strict machine counts nothing, and it ends with the same count
    have hstrict : (((powerOn config).withPolicy .strict).call (.runUntilHalt program)).2.Invariant
        { config with policy := .strict } :=
      call_induction_of_program rfl (fun _ hm => hm.step program) (.powerOn _)
    have hzero := hstrict.skipped_eq_zero rfl
    change (((powerOn config).withPolicy .strict).runUntilHalt program).2.skipped = 0 at hzero
    rwa [runUntilHalt_withPolicy .strict hknown] at hzero

/-- **The policies agree up to the first unknown opcode.**  A lenient and a strict machine that were
just built with the same sizes give the same answers and are the same machine, apart from the
policy, as long as they come to opcodes only.  At the first word that is none the strict machine
faults with the word and its position.  A strict run ends with anything else exactly when the
lenient one has passed over nothing, and then both have the same result and leave the same
machine. -/
theorem policies_agree (config : Config) (program : Program)
    (hm : Built { config with policy := .lenient } m)
    (hm' : Built { config with policy := .strict } m') :
    (∀ k, (∀ i < k, ∀ w, ¬ (m.after program i).AtUnknown program w) →
      (∀ i < k, m'.answer program i = m.answer program i) ∧
        m'.after program k = (m.after program k).withPolicy .strict) ∧
    (∀ j v, (m.after program j).AtUnknown program v →
      ∃ k ≤ j, ∃ w, m.MeetsUnknown program k w ∧
        (m'.after program k).step program =
          (.error (.unknownOpcode w (m.after program k).pc),
            (m.after program k).withPolicy .strict) ∧
        m'.runUntilHalt program =
          (.error (.unknownOpcode w (m.after program k).pc),
            (m.after program k).withPolicy .strict)) ∧
    ((∀ w pc, (m'.runUntilHalt program).1 ≠ .error (.unknownOpcode w pc)) ↔
      (m.runUntilHalt program).2.skipped = 0) ∧
    ((m.runUntilHalt program).2.skipped = 0 →
      m'.runUntilHalt program =
        ((m.runUntilHalt program).1, (m.runUntilHalt program).2.withPolicy .strict)) := by
  obtain rfl := hm.eq_powerOn
  obtain rfl : m' = (powerOn { config with policy := .lenient }).withPolicy .strict :=
    hm'.eq_powerOn
  have hlenient : (powerOn { config with policy := .lenient }).config.policy = .lenient := rfl
  have hlockstep := lockstep_withPolicy .strict program
  have hskipped := skipped_runUntilHalt_eq_zero_iff hlenient program
  refine ⟨fun k hknown => ⟨fun i hi => ?_, hlockstep.after rfl hknown⟩, fun j v hv => ?_, ?_, ?_⟩
  · exact hlockstep.answer_eq rfl fun j hj => hknown j (Nat.lt_of_le_of_lt hj hi)
  · obtain ⟨k, hk, w, hmeets⟩ := exists_meetsUnknown hv
    exact ⟨k, hk, w, hmeets, hmeets.step_strict, hmeets.runUntilHalt_strict hlenient⟩
  · exact (runUntilHalt_strict_ne_iff hlenient).trans hskipped.symm
  · exact fun hzero => runUntilHalt_withPolicy .strict (hskipped.1 hzero)

/-- A word that is no opcode stands behind a move: the strict machine makes the move and faults. -/
theorem policies_agree_unknown_behind_move :
    (powerOn { registers := 1, policy := .strict }).after
        #[0x01, 0, 5, 0, 0x1FF, 0, 0, 0, 0xFF, 0, 0, 0] 1 =
      ((powerOn { registers := 1 }).commit (.write 0 5)).withPolicy .strict ∧
    ((powerOn { registers := 1, policy := .strict }).runUntilHalt
        #[0x01, 0, 5, 0, 0x1FF, 0, 0, 0, 0xFF, 0, 0, 0]).1 = .error (.unknownOpcode 0x1FF 4) := by
  have hlenient : Built { registers := 1 } (powerOn { registers := 1 }) := .ofConfig rfl
  have hstrict : Built { registers := 1, policy := .strict }
      (powerOn { registers := 1, policy := .strict }) := .ofConfig rfl
  obtain ⟨hagree, hmeets, -, -⟩ := policies_agree { registers := 1 }
    #[0x01, 0, 5, 0, 0x1FF, 0, 0, 0, 0xFF, 0, 0, 0] hlenient hstrict
  have hmove : ∀ w, ¬ (powerOn { registers := 1 }).AtUnknown
      #[0x01, 0, 5, 0, 0x1FF, 0, 0, 0, 0xFF, 0, 0, 0] w := by
    rintro _ ⟨-, hunknown, _, ⟨⟩, rfl⟩
    revert hunknown
    decide
  constructor
  · refine (hagree 1 fun i hi => ?_).2
    obtain rfl : i = 0 := by omega
    exact hmove
  · obtain ⟨k, hk, w, hfirst, -, hrun⟩ := hmeets 1 0x1FF ⟨rfl, by decide, _, rfl, rfl⟩
    cases k with
    | zero => exact absurd hfirst.atUnknown (hmove w)
    | succ k =>
      obtain rfl : k = 0 := by omega
      obtain ⟨-, -, _, ⟨⟩, rfl⟩ := hfirst.atUnknown
      exact congrArg Prod.fst hrun

end Machine

end RegisterMachine
