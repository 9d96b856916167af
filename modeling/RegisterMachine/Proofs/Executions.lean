import RegisterMachine.Proofs.History
import RegisterMachine.Proofs.InOrder

/-!
# What calls execute

Every call that is no reset executes some instructions of its program, one after the other, and so
does a sequence of calls, each with its own program.  Which instructions these are is known from the
machine before and after each call.  Where a cancel comes in, or an instruction faults, the call has
executed those before.

## Main definitions

* `Machine.CallsExecute` : the instructions that calls execute, none of them a reset.

## Main statements

* `Machine.exists_executesAll_call` and `Machine.exists_callsExecute` : there are always such
  instructions;
* `Machine.ExecutesAll.unique` and `Machine.CallsExecute.unique` : there are no others.
-/

namespace RegisterMachine

theorem Call.exists_program?_eq_some {c : Call} (hc : c ≠ .reset) :
    ∃ program, c.program? = some program := by
  cases c with
  | step program | runUntilHalt program => exact ⟨program, rfl⟩
  | run program cancel => exact ⟨program, rfl⟩
  | reset => exact absurd rfl hc

namespace Machine

/-- These are the instructions that the calls execute on the machine, none of which is a reset: call
after call, those of its program that lead from the machine before it to the machine after it. -/
inductive CallsExecute : Machine → List Call → List Instruction → Prop
  | nil (m : Machine) : CallsExecute m [] []
  | cons {m : Machine} {c : Call} {cs : List Call} {program : Program}
      {is js : List Instruction} :
      c.program? = some program → m.ExecutesAll program is (m.call c).2 →
        CallsExecute (m.call c).2 cs js → CallsExecute m (c :: cs) (is ++ js)

variable {m m' m'' : Machine} {c : Call} {cs : List Call} {program : Program} {i : Instruction}
  {is js : List Instruction}

/-! ### One program -/

theorem Completes.executesAll (h : m.Completes program i) :
    m.ExecutesAll program [i] (m.step program).2 :=
  .cons h.running h.fetched h.executes (.nil _)

theorem ExecutesAll.append (h : m.ExecutesAll program is m') (h' : m'.ExecutesAll program js m'') :
    m.ExecutesAll program (is ++ js) m'' := by
  induction h with
  | nil => exact h'
  | cons hm hfetch hexecutes _ ih => exact .cons hm hfetch hexecutes (ih h')

/-- The machines before and after tell which instructions were executed between them. -/
theorem ExecutesAll.unique (h : m.ExecutesAll program is m') (h' : m.ExecutesAll program js m') :
    is = js := by
  obtain ⟨-, hsteps, -⟩ := h.counters
  obtain ⟨-, hsteps', -⟩ := h'.counters
  have hlength : is.length = js.length := by omega
  refine List.ext_getElem? fun j => ?_
  by_cases hj : j < is.length
  · rw [h.getElem?_eq j hj, h'.getElem?_eq j (hlength ▸ hj)]
  · rw [List.getElem?_eq_none (by omega), List.getElem?_eq_none (by omega)]

/-- **A call executes instructions of its program**, whatever it is and however it ends. -/
theorem exists_executesAll_call (hc : c.program? = some program) (m : Machine) :
    ∃ is, m.ExecutesAll program is (m.call c).2 := by
  refine call_induction_of_program (P := fun m' => ∃ is, m.ExecutesAll program is m') hc ?_
    ⟨[], .nil m⟩
  rintro m' ⟨is, his⟩
  -- a step executes one instruction more, or none
  rcases m'.step_eq_or_completes program with heq | ⟨i, hi⟩
  · exact ⟨is, heq.symm ▸ his⟩
  · exact ⟨is ++ [i], his.append hi.executesAll⟩

/-! ### Many calls -/

theorem exists_callsExecute (hcs : .reset ∉ cs) (m : Machine) : ∃ is, m.CallsExecute cs is := by
  induction cs generalizing m with
  | nil => exact ⟨[], .nil m⟩
  | cons c cs ih =>
    rw [List.mem_cons, not_or] at hcs
    obtain ⟨program, hprogram⟩ := Call.exists_program?_eq_some (Ne.symm hcs.1)
    obtain ⟨is, his⟩ := exists_executesAll_call hprogram m
    obtain ⟨js, hjs⟩ := ih hcs.2 (m.call c).2
    exact ⟨is ++ js, .cons hprogram his hjs⟩

theorem CallsExecute.unique (h : m.CallsExecute cs is) (h' : m.CallsExecute cs js) : is = js := by
  induction h generalizing js with
  | nil =>
    cases h'
    rfl
  | cons hprogram hfirst _ ih =>
    cases h' with
    | cons hprogram' hfirst' hrest' =>
      obtain rfl := Option.some.inj (hprogram.symm.trans hprogram')
      rw [hfirst.unique hfirst', ih hrest']

end Machine

end RegisterMachine
