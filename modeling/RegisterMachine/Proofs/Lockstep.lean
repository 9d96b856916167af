import RegisterMachine.Proofs.Steps

/-!
# Two runs side by side

Two machines, each with a program of its own, may differ and yet do the same thing: they are
related, and every step of both gives one answer and leaves them related.  What single steps keep in
this way is kept by any number of them, and by runs until the machines stop.  Often the machines
keep in step only for a while, because the first one faults where the second one goes on; then the
relation holds for as long as the first machine meets a condition before each of its steps.

## Main definitions

* `Follows` : a computation that comes out as another one does, unless that one fails with an error
  that excuses it;
* `Machine.Avoids` : the next step does not fault with an error of some kind;
* `Machine.Lockstep` : a relation between machines that a step of both keeps, with one answer.

## Main statements

* `Machine.follows_plan_of_fetch?` : plans follow each other when the effects of instructions do;
* `Machine.Lockstep.of_follows` : machines keep in step when their plans do;
* `Machine.Lockstep.after`, `Machine.Lockstep.answer_eq` and `Machine.Lockstep.runUntilHalt` : what
  follows for many steps and for runs;
* `Machine.Lockstep.always` : the same where there is no condition.
-/

namespace RegisterMachine

/-- `y` comes out as `x` does: it fails with the same error, or it has a result that `A` relates to
that of `x`.  Where `x` fails with an excused error, nothing is asked of `y`. -/
inductive Follows {α β : Type} (excused : Error → Prop) (A : α → β → Prop) :
    Except Error α → Except Error β → Prop
  | ok {a : α} {b : β} : A a b → Follows excused A (.ok a) (.ok b)
  | error (e : Error) : Follows excused A (.error e) (.error e)
  | excuse {e : Error} (he : excused e) (y : Except Error β) : Follows excused A (.error e) y

namespace Follows

variable {α β γ δ : Type} {excused : Error → Prop} {A : α → β → Prop} {B : γ → δ → Prop}

theorem refl (x : Except Error α) : Follows excused Eq x x := by
  cases x with
  | error e => exact .error e
  | ok a => exact .ok rfl

/-- **Sequences follow each other when their parts do.** -/
theorem bind {x : Except Error α} {y : Except Error β} {f : α → Except Error γ}
    {g : β → Except Error δ} (h : Follows excused A x y)
    (hfg : ∀ a b, A a b → Follows excused B (f a) (g b)) :
    Follows excused B (x >>= f) (y >>= g) := by
  cases h with
  | ok hab => exact hfg _ _ hab
  | error e => exact .error e
  | excuse he y => exact .excuse he _

/-- A weaker relation between the results. -/
theorem mono {A' : α → β → Prop} {x : Except Error α} {y : Except Error β}
    (h : Follows excused A x y) (hA : ∀ a b, x = .ok a → A a b → A' a b) :
    Follows excused A' x y := by
  cases h with
  | ok hab => exact .ok (hA _ _ rfl hab)
  | error e => exact .error e
  | excuse he y => exact .excuse he y

theorem map_left {B : γ → β → Prop} {f : α → γ} {x : Except Error α} {y : Except Error β}
    (h : Follows excused A x y) (hB : ∀ a b, A a b → B (f a) b) :
    Follows excused B (x.map f) y := by
  cases h with
  | ok hab => exact .ok (hB _ _ hab)
  | error e => exact .error e
  | excuse he y => exact .excuse he y

end Follows

namespace Machine

/-- The next step of `m` does not fault with an error of this kind. -/
def Avoids (kind : Error → Prop) (program : Program) (m : Machine) : Prop :=
  ∀ e, kind e → (m.step program).1 ≠ .error e

/-- `R` relates machines that keep in step, the first on `program` and the second on `program'`:
where the first one meets `C`, a step of both gives one answer and leaves them related. -/
def Lockstep (program program' : Program) (C : Machine → Prop) (R : Machine → Machine → Prop) :
    Prop :=
  ∀ m m', R m m' → C m →
    (m'.step program').1 = (m.step program).1 ∧ R (m.step program).2 (m'.step program').2

variable {m m' : Machine} {program program' : Program} {C : Machine → Prop}
  {R : Machine → Machine → Prop} {k : Nat} {excused : Error → Prop} {A : Effect → Effect → Prop}

/-! ### Plans -/

/-- The effects of two instructions with one opcode follow each other when those of the operations
do that they ask for. -/
theorem follows_effectOf {i i' : Instruction} {g : Operation → Operation} (hpc : m'.pc = m.pc)
    (hpolicy : m'.config.policy = m.config.policy) (hopcode : i'.opcode = i.opcode)
    (hoperation : i'.operation? = i.operation?.map g) (hskip : A .skip .skip)
    (heffect : ∀ operation, i.operation? = some operation →
      Follows excused A (m.effect operation) (m'.effect (g operation))) :
    Follows excused A (m.effectOf i) (m'.effectOf i') := by
  unfold effectOf
  rw [hoperation, hopcode, hpolicy, hpc]
  cases hi : i.operation? with
  | some operation => exact heffect operation hi
  | none =>
    cases m.config.policy with
    | lenient => exact .ok hskip
    | strict => exact .error _

/-- **Plans follow each other when the effects of the instructions do**, where the second program is
of the same size as the first one and has `f i` where that has `i`. -/
theorem follows_plan_of_fetch? {f : Instruction → Instruction} (hpc : m'.pc = m.pc)
    (hsize : program'.size = program.size)
    (hfetch : program'.fetch? m.pc = (program.fetch? m.pc).map f)
    (heffect : ∀ i, program.fetch? m.pc = some i →
      Follows excused A (m.effectOf i) (m'.effectOf (f i))) :
    Follows excused A (m.plan program) (m'.plan program') := by
  unfold plan
  rw [hpc, hfetch, hsize]
  cases hi : program.fetch? m.pc with
  | some i => exact heffect i hi
  | none => exact .error _

/-! ### Steps and runs -/

/-- There is nothing to avoid where no error is excused. -/
theorem avoids_none (m : Machine) (program : Program) : m.Avoids (fun _ => False) program :=
  fun _ h => h.elim

theorem StopsAt.avoids {kind : Error → Prop} (hk : m.StopsAt program k)
    (h : ∀ e, kind e → (m.runUntilHalt program).1 ≠ .error e) :
    ∀ i ≤ k, (m.after program i).Avoids kind program := by
  intro i hi e he herror
  change m.answer program i = .error e at herror
  rcases Nat.eq_or_lt_of_le hi with rfl | hlt
  · rw [runUntilHalt_of_stopsAt hk] at h
    exact h e he herror
  · rw [hk.running i hlt] at herror
    cases herror

namespace Lockstep

/-- **Machines keep in step when their plans follow each other**, up to effects that leave them
related, and the condition rules out the errors that are excused. -/
theorem of_follows (hC : ∀ m, C m → m.Avoids excused program)
    (hstatus : ∀ m m', R m m' → m'.status = m.status)
    (hplan : ∀ m m', R m m' → C m → m.status = .running →
      Follows excused (fun effect effect' => R (m.commit effect) (m'.commit effect'))
        (m.plan program) (m'.plan program')) :
    Lockstep program program' C R := by
  intro m m' hR hm
  have hm' := hstatus m m' hR
  by_cases hrunning : m.status = .running
  · rw [hrunning] at hm'
    have hfollows := hplan m m' hR hm hrunning
    generalize hx : m.plan program = x, hy : m'.plan program' = y at hfollows
    cases hfollows with
    | ok hcommit =>
      rw [step_of_plan_eq_ok hrunning hx, step_of_plan_eq_ok hm' hy]
      exact ⟨congrArg Except.ok (hstatus _ _ hcommit), hcommit⟩
    | error e =>
      rw [step_of_plan_eq_error hrunning hx, step_of_plan_eq_error hm' hy]
      exact ⟨rfl, hR⟩
    | @excuse e he =>
      -- the first machine does not fault with an error that is an excuse
      refine absurd ?_ (hC m hm e he)
      rw [step_of_plan_eq_error hrunning hx]
  · have hne : m'.status ≠ .running := by rwa [hm']
    rw [step_of_status_ne hrunning, step_of_status_ne hne, hm']
    exact ⟨rfl, hR⟩

/-- **Any number of steps leaves machines related that keep in step.** -/
theorem after (h : Lockstep program program' C R) (hR : R m m')
    (hC : ∀ i < k, C (m.after program i)) : R (m.after program k) (m'.after program' k) := by
  induction k with
  | zero => exact hR
  | succ k ih =>
    have hlast := ih fun i hi => hC i (by omega)
    rw [after_succ', after_succ']
    exact (h _ _ hlast (hC k (by omega))).2

theorem answer_eq (h : Lockstep program program' C R) (hR : R m m')
    (hC : ∀ i ≤ k, C (m.after program i)) : m'.answer program' k = m.answer program k := by
  have hlast := h.after hR fun i hi => hC i (Nat.le_of_lt hi)
  exact (h _ _ hlast (hC k (Nat.le_refl k))).1

/-- **Runs of machines that keep in step end alike**: after as many steps, with one result, and with
the machines related. -/
theorem runUntilHalt (h : Lockstep program program' C R) (hR : R m m')
    (hk : m.StopsAt program k) (hC : ∀ i ≤ k, C (m.after program i)) :
    (m'.runUntilHalt program').1 = (m.runUntilHalt program).1 ∧
      R (m.runUntilHalt program).2 (m'.runUntilHalt program').2 := by
  have hanswer : ∀ i ≤ k, m'.answer program' i = m.answer program i := fun i hi =>
    h.answer_eq hR fun j hj => hC j (Nat.le_trans hj hi)
  have hk' : m'.StopsAt program' k :=
    ⟨fun i hi => (hanswer i (Nat.le_of_lt hi)).trans (hk.running i hi),
      fun hrunning => hk.stops ((hanswer k (Nat.le_refl k)).symm.trans hrunning)⟩
  rw [runUntilHalt_of_stopsAt hk, runUntilHalt_of_stopsAt hk']
  exact ⟨hanswer k (Nat.le_refl k), h.after hR fun i hi => hC i (Nat.le_of_lt_succ hi)⟩

/-- **Machines that keep in step without a condition** do so for any number of steps and for whole
runs. -/
theorem always (h : Lockstep program program' (fun _ => True) R) (hR : R m m') :
    (∀ k, m'.answer program' k = m.answer program k ∧
      R (m.after program k) (m'.after program' k)) ∧
    (m'.runUntilHalt program').1 = (m.runUntilHalt program).1 ∧
      R (m.runUntilHalt program).2 (m'.runUntilHalt program').2 := by
  obtain ⟨k, hk, -⟩ := m.exists_stopsAt program
  refine ⟨fun k => ⟨?_, ?_⟩, ?_⟩
  · exact h.answer_eq hR fun _ _ => trivial
  · exact h.after hR fun _ _ => trivial
  · exact h.runUntilHalt hR hk fun _ _ => trivial

end Lockstep

end Machine

end RegisterMachine
