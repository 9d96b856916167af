import RegisterMachine.Proofs.Lockstep
import RegisterMachine.Proofs.Resumption

/-!
# The words that matter

A step looks at a program only through the four words that it fetches, and tells its length only
where they are not all there.  So a run until the machine stops depends on the words up to the end
of the instruction that stops it, and on no others.  A run that comes to the end of its program
instead is not lost: the machine goes on as soon as the missing words are there.

## Main definitions

* `Program.AgreesBelow` : the beginning of a program stands in another one;
* `Program.IsBeginning` : a program that is the whole beginning of another one;
* `Machine.extent` : where the words end that a run until the machine stops has looked at.

## Main statements

* `Machine.step_of_effectOf_eq` and `Machine.step_of_agreesBelow` : what a step looks at;
* `Machine.runUntilHalt_of_agreesBelow` : runs on programs that agree on these words are the same;
* `Machine.runUntilHalt_append` : words behind a program, and programs that are handed over bit by
  bit.
-/

namespace RegisterMachine

/-! ### Programs with a common beginning -/

namespace Program

/-- The words of `program` before position `n` stand in `other` as well. -/
def AgreesBelow (program : Program) (n : Nat) (other : Program) : Prop :=
  ∀ j < n, ∀ w, program[j]? = some w → other[j]? = some w

/-- `whole` is `beginning`, with any words behind it. -/
def IsBeginning (beginning whole : Program) : Prop :=
  ∃ behind : Program, beginning ++ behind = whole

variable {program other : Program} {n pc : Nat} {i : Instruction}

theorem fetch?_eq_none_iff_of_size_eq (h : other.size = program.size) (pc : Nat) :
    other.fetch? pc = none ↔ program.fetch? pc = none := by
  rw [fetch?_eq_none_iff, fetch?_eq_none_iff, h]

theorem IsBeginning.agreesBelow (h : program.IsBeginning other) (n : Nat) :
    program.AgreesBelow n other := by
  obtain ⟨behind, rfl⟩ := h
  intro j _ w hw
  obtain ⟨hlt, -⟩ := Array.getElem?_eq_some_iff.1 hw
  rw [Array.getElem?_append_left hlt, hw]

theorem AgreesBelow.fetch?_eq_some (h : program.AgreesBelow n other) (hn : pc + 4 ≤ n)
    (hi : program.fetch? pc = some i) : other.fetch? pc = some i := by
  obtain ⟨-, h₀, h₁, h₂, h₃⟩ := fetch?_eq_some_iff.1 hi
  have hlast := h (pc + 3) (by omega) _ h₃
  obtain ⟨hlt, -⟩ := Array.getElem?_eq_some_iff.1 hlast
  exact fetch?_eq_some_iff.2 ⟨by omega, h pc (by omega) _ h₀, h (pc + 1) (by omega) _ h₁,
    h (pc + 2) (by omega) _ h₂, hlast⟩

end Program

/-- The error reports that the program has no whole instruction left. -/
def Error.IsEndOfProgram : Error → Prop
  | .endOfProgram _ _ => True
  | _ => False

namespace Machine

variable {m : Machine} {program other beginning whole : Program} {k n : Nat}

/-! ### Steps -/

theorem step_of_plan_eq (h : m.plan other = m.plan program) : m.step other = m.step program := by
  unfold step
  rw [h]

/-- A step is the same on a program of the same size, if the instruction that is fetched there has
the same effect. -/
theorem step_of_effectOf_eq (hsize : other.size = program.size)
    (heffect : ∀ i i', m.status = .running → program.fetch? m.pc = some i →
      other.fetch? m.pc = some i' → m.effectOf i' = m.effectOf i) :
    m.step other = m.step program := by
  by_cases hrunning : m.status = .running
  · refine step_of_plan_eq ?_
    have hnone := Program.fetch?_eq_none_iff_of_size_eq hsize m.pc
    cases hi : program.fetch? m.pc with
    | none =>
      -- the error tells how many words are left, which are as many
      rw [plan_of_fetch?_eq_none hi, plan_of_fetch?_eq_none (hnone.2 hi), hsize]
    | some i =>
      obtain ⟨i', hi'⟩ : ∃ i', other.fetch? m.pc = some i' := by
        rw [← Option.ne_none_iff_exists', ne_eq, hnone, hi]
        exact Option.some_ne_none i
      rw [plan_of_fetch?_eq_some hi, plan_of_fetch?_eq_some hi', heffect i i' hrunning hi hi']
  · rw [step_of_status_ne hrunning, step_of_status_ne hrunning]

/-- **A step looks at the words that it fetches**: where they are there, it is the same on every
program that has them at the same place. -/
theorem step_of_agreesBelow (h : program.AgreesBelow n other)
    (hn : m.status = .running → m.pc + 4 ≤ n) (hm : m.Avoids Error.IsEndOfProgram program) :
    m.step other = m.step program := by
  by_cases hrunning : m.status = .running
  · cases hi : program.fetch? m.pc with
    | some i =>
      have hi' := h.fetch?_eq_some (hn hrunning) hi
      refine step_of_plan_eq ?_
      rw [plan_of_fetch?_eq_some hi, plan_of_fetch?_eq_some hi']
    | none =>
      -- without the four words the step would have faulted with the end of the program
      refine absurd ?_ (hm (.endOfProgram m.pc (program.size - m.pc)) trivial)
      rw [step_of_plan_eq_error hrunning (plan_of_fetch?_eq_none hi)]
  · rw [step_of_status_ne hrunning, step_of_status_ne hrunning]

theorem lockstep_of_agreesBelow (h : program.AgreesBelow n other) :
    Lockstep program other
      (fun m => (m.status = .running → m.pc + 4 ≤ n) ∧ m.Avoids Error.IsEndOfProgram program)
      Eq := by
  rintro m _ rfl ⟨hn, hm⟩
  rw [step_of_agreesBelow h hn hm]
  exact ⟨rfl, rfl⟩

/-! ### Runs until the machine stops -/

/-- The position behind the last word that a run until the machine stops has looked at, where the
run does not come to the end of the program: an instruction that halts the machine or ends the
program is behind it then, one that faults is ahead of it. -/
def extent (m : Machine) (program : Program) : Nat :=
  match m.runUntilHalt program with
  | (.ok _, m') => m'.pc
  | (.error _, m') => m'.pc + 4

/-- All instructions that a run has executed or tried lie before its extent. -/
theorem StopsAt.pc_add_le_extent (hk : m.StopsAt program k) {i : Nat} (hi : i ≤ k)
    (hrunning : (m.after program i).status = .running) :
    (m.after program i).pc + 4 ≤ m.extent program := by
  obtain ⟨hpc, -, -⟩ := counters_after fun j hj => hk.running j (Nat.lt_of_lt_of_le hj hi)
  obtain ⟨hlast, -, hstatus⟩ := counters_after hk.running
  have hrun := runUntilHalt_of_stopsAt hk
  unfold extent
  rw [hrun]
  cases hanswer : m.answer program k with
  | error e =>
    -- the last instruction faulted and did not move the counter
    have hsame := after_succ_of_answer_eq_error hanswer
    show (m.after program i).pc + 4 ≤ (m.after program (k + 1)).pc + 4
    rw [hsame]
    omega
  | ok status =>
    have hkrunning : (m.after program k).status = .running := by
      rcases Nat.eq_or_lt_of_le hi with rfl | hlt
      · exact hrunning
      · exact (hstatus (by omega)).2.1
    have hstep : (m.after program k).step program = (.ok status, m.after program (k + 1)) := by
      rw [step_after, hanswer]
    obtain ⟨-, effect, -, hcommit⟩ := (step_eq_ok_iff hkrunning).1 hstep
    show (m.after program i).pc + 4 ≤ (m.after program (k + 1)).pc
    rw [hcommit, pc_commit]
    omega

/-- **A run depends on the words up to its extent**, unless it comes to the end of the program. -/
theorem runUntilHalt_of_agreesBelow
    (hend : ∀ e : Error, e.IsEndOfProgram → (m.runUntilHalt program).1 ≠ .error e)
    (h : program.AgreesBelow (m.extent program) other) :
    m.runUntilHalt other = m.runUntilHalt program := by
  obtain ⟨k, hk, -⟩ := m.exists_stopsAt program
  have havoids := hk.avoids hend
  obtain ⟨hresult, hmachine⟩ := (lockstep_of_agreesBelow h).runUntilHalt rfl hk fun i hi =>
    ⟨hk.pc_add_le_extent hi, havoids i hi⟩
  exact Prod.ext hresult hmachine.symm

/-! ### Programs that are handed over bit by bit -/

/-- A step on a beginning of the program does not change what a run on the whole leads to. -/
theorem runUntilHalt_step_beginning (h : beginning.IsBeginning whole) (m : Machine) :
    (m.step beginning).2.runUntilHalt whole = m.runUntilHalt whole := by
  cases hanswer : (m.step beginning).1 with
  | error e =>
    -- a step that faults changes nothing
    have hstep : m.step beginning = (.error e, (m.step beginning).2) := Prod.ext hanswer rfl
    obtain ⟨hsame, -, -⟩ := step_eq_error_iff.1 hstep
    rw [hsame]
  | ok status =>
    have havoids : m.Avoids Error.IsEndOfProgram beginning := by
      intro e _ herror
      rw [hanswer] at herror
      cases herror
    have hstep := step_of_agreesBelow (h.agreesBelow (m.pc + 4)) (fun _ => Nat.le_refl _) havoids
    rw [← hstep, runUntilHalt_step]

theorem runUntilHalt_calls_beginning {cs : List Call}
    (hcs : ∀ c ∈ cs, ∃ beginning, c.program? = some beginning ∧ beginning.IsBeginning whole) :
    (m.calls cs).2.runUntilHalt whole = m.runUntilHalt whole := by
  refine calls_induction_of_programs (P := fun m' => m'.runUntilHalt whole = m.runUntilHalt whole)
    (fun c hc => ?_) rfl
  obtain ⟨beginning, hprogram, hbeginning⟩ := hcs c hc
  refine ⟨beginning, hprogram, fun m' hm' => ?_⟩
  rw [runUntilHalt_step_beginning hbeginning, hm']

/-- **Locality.**  A run that does not come to the end of its program is the same with any words
behind the program, and with any words from its extent on.  A run that does come to the end leaves
a machine that a run on more words takes to where it takes the machine from before.  So a program
can be handed over bit by bit: runs and steps on beginnings of it, of whatever lengths and in
whatever order, do not change how a run on the whole ends. -/
theorem runUntilHalt_append (m : Machine) (program rest : Program) :
    ((∀ pc remaining, (m.runUntilHalt program).1 ≠ .error (.endOfProgram pc remaining)) →
      m.runUntilHalt (program ++ rest) = m.runUntilHalt program ∧
        ∀ other, program.AgreesBelow (m.extent program) other →
          m.runUntilHalt other = m.runUntilHalt program) ∧
    (m.runUntilHalt program).2.runUntilHalt (program ++ rest) =
      m.runUntilHalt (program ++ rest) ∧
    ∀ cs : List Call,
      (∀ c ∈ cs, ∃ beginning, c.program? = some beginning ∧
        beginning.IsBeginning (program ++ rest)) →
      (m.calls cs).2.runUntilHalt (program ++ rest) = m.runUntilHalt (program ++ rest) := by
  have hbeginning : program.IsBeginning (program ++ rest) := ⟨rest, rfl⟩
  refine ⟨fun h => ?_, ?_, fun cs hcs => runUntilHalt_calls_beginning hcs⟩
  · have hend : ∀ e : Error, e.IsEndOfProgram → (m.runUntilHalt program).1 ≠ .error e := by
      intro e he
      cases e with
      | endOfProgram pc remaining => exact h pc remaining
      | _ => exact he.elim
    exact ⟨runUntilHalt_of_agreesBelow hend (hbeginning.agreesBelow _),
      fun other hother => runUntilHalt_of_agreesBelow hend hother⟩
  · have hcs : ∀ c ∈ [Call.runUntilHalt program], ∃ beginning,
        c.program? = some beginning ∧ beginning.IsBeginning (program ++ rest) := by
      intro c hc
      obtain rfl := List.mem_singleton.1 hc
      exact ⟨program, rfl, hbeginning⟩
    exact runUntilHalt_calls_beginning hcs

/-- A program that ends itself is followed by words that are no instruction.  It is handed over up
to the middle of its first instruction, then up to the middle of its second, and then whole. -/
theorem runUntilHalt_append_behind_finish :
    (powerOn { registers := 1 }).runUntilHalt (#[0x01, 0, 5, 0, 0xFF, 0, 0, 0] ++ #[0x42, 9]) =
        (.ok .terminated,
          ((powerOn { registers := 1 }).commit (.write 0 5)).commit (.stop .terminated)) ∧
      ((powerOn { registers := 1 }).calls
        [.runUntilHalt #[0x01, 0], .runUntilHalt #[0x01, 0, 5, 0, 0xFF]]).2.runUntilHalt
          (#[0x01, 0, 5, 0, 0xFF, 0, 0, 0] ++ #[0x42, 9]) =
        (powerOn { registers := 1 }).runUntilHalt
          (#[0x01, 0, 5, 0, 0xFF, 0, 0, 0] ++ #[0x42, 9]) := by
  have hrun : (powerOn { registers := 1 }).runUntilHalt #[0x01, 0, 5, 0, 0xFF, 0, 0, 0] =
      (.ok .terminated,
        ((powerOn { registers := 1 }).commit (.write 0 5)).commit (.stop .terminated)) := by
    rw [runUntilHalt_eq]
    change runUntilHalt ((powerOn { registers := 1 }).commit (.write 0 5)) _ = _
    rw [runUntilHalt_eq]
    rfl
  obtain ⟨hbehind, -, hfeed⟩ := runUntilHalt_append (powerOn { registers := 1 })
    #[0x01, 0, 5, 0, 0xFF, 0, 0, 0] #[0x42, 9]
  rw [hrun] at hbehind
  refine ⟨(hbehind ?_).1, hfeed _ fun c hc => ?_⟩
  · rintro _ _ ⟨⟩
  · simp only [List.mem_cons, List.not_mem_nil, or_false] at hc
    rcases hc with rfl | rfl
    · exact ⟨#[0x01, 0], rfl, #[5, 0, 0xFF, 0, 0, 0, 0x42, 9], rfl⟩
    · exact ⟨#[0x01, 0, 5, 0, 0xFF], rfl, #[0, 0, 0, 0x42, 9], rfl⟩

end Machine

end RegisterMachine
