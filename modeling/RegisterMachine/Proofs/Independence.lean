import RegisterMachine.Proofs.Immediates
import RegisterMachine.Proofs.InOrder
import RegisterMachine.Proofs.Invariant

/-!
# Instructions that may be exchanged

Two instructions that have nothing to do with each other can be executed in either order.  What an
instruction has to do with is a matter of places: the registers and memory cells that it reads and
writes, and the stack.  Whether it passes its checks, and what it changes then, depends on what it
reads and on which places there are; and it changes no place but those that it writes.  So it passes
its checks behind an independent instruction exactly when it passes them in its stead, and the two
changes do not meet.

## Main definitions

* `Location` and `Machine.content?` : a register or memory cell, and what it holds;
* `Operation.reads`, `Operation.writes` and `Operation.usesStack` : what an operation has to do
  with;
* `Instruction.Independent` : instructions that may be exchanged;
* `Program.exchange` : a program with two instructions exchanged.

## Main statements

* `Machine.SameTo.effect_eq_ok` : what the effect of an operation depends on;
* `Machine.content?_commit` : what the commit of an effect leaves as it is;
* `Machine.commit_comm` : commits that change different things commute;
* `Machine.exchange_agrees` : independent instructions may be exchanged.
-/

namespace RegisterMachine

/-- A place for a word. -/
inductive Location where
  /-- The register of this number. -/
  | register (id : Word)
  /-- The memory cell of this address. -/
  | cell (address : Word)
  deriving DecidableEq, Repr

/-! ### What operations have to do with -/

/-- The register that holds the operand. -/
def Operand.reads (source : Operand) : List Location :=
  (source.register?.map .register).toList

namespace Operation

/-- The places whose content the operation looks at.  All arithmetic but a move looks at the
destination. -/
def reads : Operation → List Location
  | .compute .move _ source => source.reads
  | .compute _ destination source => .register destination :: source.reads
  | .push source | .store _ source => source.reads
  | .load address _ => [.cell address]
  | .nop | .pop _ | .halt | .finish => []

/-- The places that the operation changes. -/
def writes : Operation → List Location
  | .compute _ destination _ | .pop destination | .load _ destination => [.register destination]
  | .store address _ => [.cell address]
  | .nop | .push _ | .halt | .finish => []

/-- The operation takes a word from the stack or puts one there. -/
def usesStack : Operation → Bool
  | .push _ | .pop _ => true
  | _ => false

end Operation

namespace Instruction

/-- The places whose content the instruction looks at. -/
def reads (i : Instruction) : List Location :=
  (i.operation?.map Operation.reads).getD []

/-- The places that the instruction changes. -/
def writes (i : Instruction) : List Location :=
  (i.operation?.map Operation.writes).getD []

/-- The instruction takes a word from the stack or puts one there. -/
def usesStack (i : Instruction) : Bool :=
  (i.operation?.map Operation.usesStack).getD false

/-- The instructions have nothing to do with each other, and neither stops the machine. -/
structure Independent (i j : Instruction) : Prop where
  /-- The machine goes on after both of them. -/
  goes_on : (¬ i.Is .halt ∧ ¬ i.Is .finish) ∧ ¬ j.Is .halt ∧ ¬ j.Is .finish
  /-- Only one of them uses the stack. -/
  stack : ¬ (i.usesStack = true ∧ j.usesStack = true)
  /-- What the first one writes, the second one neither reads nor writes. -/
  left : ∀ l ∈ i.writes, l ∉ j.reads ∧ l ∉ j.writes
  /-- What the second one writes, the first one neither reads nor writes. -/
  right : ∀ l ∈ j.writes, l ∉ i.reads ∧ l ∉ i.writes

theorem Independent.symm {i j : Instruction} (h : i.Independent j) : j.Independent i where
  goes_on := h.goes_on.symm
  stack := fun ⟨hj, hi⟩ => h.stack ⟨hi, hj⟩
  left := h.right
  right := h.left

end Instruction

/-- The program with the two instructions exchanged that stand one behind the other from `pc` on. -/
def Program.exchange (program : Program) (pc : Nat) : Program :=
  match program.fetch? pc, program.fetch? (pc + 4) with
  | some i, some j => (program.overwrite pc j).overwrite (pc + 4) i
  | _, _ => program

/-! ### What effects change -/

/-- The bank with a word in one of its cells, or as it is. -/
def Bank.update (b : Bank) : Option (Word × Word) → Bank
  | some (w, v) => b.set w v
  | none => b

namespace Effect

/-- The number of the register that gets a value, and the value. -/
def register? : Effect → Option (Word × Word)
  | .write id value | .pop id value => some (id, value)
  | _ => none

/-- The address of the memory cell that gets a value, and the value. -/
def cell? : Effect → Option (Word × Word)
  | .store address value => some (address, value)
  | _ => none

/-- What becomes of the stack. -/
def onStack : Effect → Stack → Stack
  | .push value, s => s.put value
  | .pop _ _, s => s.drop
  | _, s => s

/-- The stack changes. -/
def usesStack : Effect → Bool
  | .push _ | .pop _ _ => true
  | _ => false

/-- What becomes of the status. -/
def onStatus : Effect → Status → Status
  | .stop status, _ => status
  | _, status => status

/-- How many unknown opcodes are counted. -/
def skips : Effect → Nat
  | .skip => 1
  | _ => 0

/-- The places that change. -/
def writes : Effect → List Location
  | .write id _ | .pop id _ => [.register id]
  | .store address _ => [.cell address]
  | _ => []

theorem onStack_of_usesStack_eq_false (effect : Effect) (h : effect.usesStack = false) (s : Stack) :
    effect.onStack s = s := by
  cases effect with
  | push | pop => cases h
  | nothing | write | store | stop | skip => rfl

theorem register_mem_writes {effect : Effect} {id : Word} :
    .register id ∈ effect.writes ↔ id ∈ effect.register?.map Prod.fst := by
  cases effect <;> simp [writes, register?, eq_comm]

theorem cell_mem_writes {effect : Effect} {address : Word} :
    .cell address ∈ effect.writes ↔ address ∈ effect.cell?.map Prod.fst := by
  cases effect <;> simp [writes, cell?, eq_comm]

end Effect

namespace Bank

variable {b : Bank} {w x : Word} {u u' : Option (Word × Word)}

theorem index?_set (b : Bank) (w v x : Word) : (b.set w v).index? x = b.index? x := by
  unfold index?
  rw [size_set]

theorem set_of_index?_eq_none (h : b.index? w = none) (v : Word) : b.set w v = b := by
  rw [set, h]

theorem set_of_index?_eq_some {i : Nat} (h : b.index? w = some i) (v : Word) :
    b.set w v = ⟨b.cells.setIfInBounds i v⟩ := by
  rw [set, h]

/-- Writes to different numbers commute. -/
theorem set_comm (h : w ≠ x) (v y : Word) : (b.set w v).set x y = (b.set x y).set w v := by
  have hw := b.index?_set x y w
  have hx := b.index?_set w v x
  cases hi : b.index? w with
  | none => rw [set_of_index?_eq_none hi, set_of_index?_eq_none (hw.trans hi)]
  | some i =>
    cases hj : b.index? x with
    | none => rw [set_of_index?_eq_none hj, set_of_index?_eq_none (hx.trans hj)]
    | some j =>
      have hne : i ≠ j := by
        rintro rfl
        rw [index?_eq_some_iff] at hi hj
        exact h (Int32.toInt_inj.1 (hi.1.trans hj.1.symm))
      rw [set_of_index?_eq_some (hx.trans hj), set_of_index?_eq_some hi,
        set_of_index?_eq_some (hw.trans hi), set_of_index?_eq_some hj,
        Array.setIfInBounds_comm v y hne]

theorem get?_update (h : w ∉ u.map Prod.fst) : (b.update u).get? w = b.get? w := by
  cases u with
  | none => rfl
  | some c => exact get?_set_of_ne (fun heq => h (congrArg some heq.symm)) c.2

theorem update_comm (h : ∀ w ∈ u.map Prod.fst, w ∉ u'.map Prod.fst) :
    (b.update u).update u' = (b.update u').update u := by
  cases u with
  | none => rfl
  | some c =>
    cases u' with
    | none => rfl
    | some c' => exact set_comm (fun heq => h c.1 rfl (congrArg some heq.symm)) c.2 c'.2

end Bank

namespace Machine

variable {m m' : Machine} {effect effect' : Effect} {operation : Operation} {i j : Instruction}
  {program : Program}

/-- The content of a place. -/
def content? (m : Machine) : Location → Option Word
  | .register id => m.registers.get? id
  | .cell address => m.memory.get? address

/-! ### Commits -/

/-- A commit changes each part of the machine for itself. -/
theorem commit_eq (m : Machine) (effect : Effect) :
    m.commit effect =
      { config := m.config
        pc := m.pc + 4
        registers := m.registers.update effect.register?
        memory := m.memory.update effect.cell?
        stack := effect.onStack m.stack
        status := effect.onStatus m.status
        steps := m.steps + 1
        skipped := m.skipped + effect.skips } := by
  cases effect <;> rfl

/-- **What is not written stays as it is.** -/
theorem content?_commit {l : Location} (h : l ∉ effect.writes) :
    (m.commit effect).content? l = m.content? l := by
  rw [commit_eq]
  cases l with
  | register id => exact Bank.get?_update (mt Effect.register_mem_writes.2 h)
  | cell address => exact Bank.get?_update (mt Effect.cell_mem_writes.2 h)

/-- The same places are there after a commit. -/
theorem content?_commit_eq_none_iff (m : Machine) (effect : Effect) (l : Location) :
    (m.commit effect).content? l = none ↔ m.content? l = none := by
  cases l with
  | register id =>
    simp only [content?, Bank.get?_eq_none_iff, size_registers_commit]
  | cell address =>
    simp only [content?, Bank.get?_eq_none_iff, size_memory_commit]

theorem stack_commit (h : effect.usesStack = false) : (m.commit effect).stack = m.stack := by
  rw [commit_eq]
  exact effect.onStack_of_usesStack_eq_false h m.stack

theorem status_commit (m : Machine) (effect : Effect) :
    (m.commit effect).status = effect.onStatus m.status := by
  rw [commit_eq]

/-- **Commits that change different things commute.** -/
theorem commit_comm (hwrites : ∀ l ∈ effect.writes, l ∉ effect'.writes)
    (hstack : ¬ (effect.usesStack = true ∧ effect'.usesStack = true))
    (hstatus : (m.commit effect).status = m.status)
    (hstatus' : (m.commit effect').status = m.status) :
    (m.commit effect).commit effect' = (m.commit effect').commit effect := by
  rw [status_commit] at hstatus hstatus'
  have hregisters : (m.registers.update effect.register?).update effect'.register? =
      (m.registers.update effect'.register?).update effect.register? :=
    Bank.update_comm fun id hid hid' =>
      hwrites _ (Effect.register_mem_writes.2 hid) (Effect.register_mem_writes.2 hid')
  have hmemory : (m.memory.update effect.cell?).update effect'.cell? =
      (m.memory.update effect'.cell?).update effect.cell? :=
    Bank.update_comm fun id hid hid' =>
      hwrites _ (Effect.cell_mem_writes.2 hid) (Effect.cell_mem_writes.2 hid')
  have hstacks : effect'.onStack (effect.onStack m.stack) =
      effect.onStack (effect'.onStack m.stack) := by
    cases hused : effect.usesStack with
    | false => rw [effect.onStack_of_usesStack_eq_false hused,
        effect.onStack_of_usesStack_eq_false hused]
    | true =>
      have hused' : effect'.usesStack = false := by simpa [hused] using hstack
      rw [effect'.onStack_of_usesStack_eq_false hused',
        effect'.onStack_of_usesStack_eq_false hused']
  have hskipped : m.skipped + effect.skips + effect'.skips =
      m.skipped + effect'.skips + effect.skips := Nat.add_right_comm _ _ _
  simp only [commit_eq, hregisters, hmemory, hstacks, hstatus, hstatus', hskipped]

/-! ### Effects -/

/-- To the operation the two machines look the same. -/
structure SameTo (operation : Operation) (m m' : Machine) : Prop where
  /-- What it reads is the same. -/
  content?_eq : ∀ l ∈ operation.reads, m'.content? l = m.content? l
  /-- The same places are there. -/
  none_iff : ∀ l, m'.content? l = none ↔ m.content? l = none
  /-- The stack is the same if it uses it. -/
  stack_eq : operation.usesStack = true → m'.stack = m.stack

namespace SameTo

theorem symm (h : SameTo operation m m') : SameTo operation m' m where
  content?_eq l hl := (h.content?_eq l hl).symm
  none_iff l := (h.none_iff l).symm
  stack_eq hused := (h.stack_eq hused).symm

theorem exists_content?_eq_some (h : SameTo operation m m') {l : Location} {v : Word}
    (hl : m.content? l = some v) : ∃ v', m'.content? l = some v' := by
  rw [← Option.ne_none_iff_exists', ne_eq, h.none_iff, hl]
  exact Option.some_ne_none v

theorem resolve_eq_ok (h : SameTo operation m m') {source : Operand} {v : Word}
    (hreads : ∀ l ∈ source.reads, l ∈ operation.reads) (hv : m.resolve source = .ok v) :
    m'.resolve source = .ok v := by
  cases source with
  | immediate value => exact hv
  | register id =>
    have hid : m'.content? (.register id) = m.content? (.register id) :=
      h.content?_eq _ (hreads _ (List.mem_singleton_self _))
    exact readRegister_eq_ok_iff.2 (hid.trans (readRegister_eq_ok_iff.1 hv))

/-- **An operation has the same effect** on a machine that looks the same to it. -/
theorem effect_eq_ok (h : SameTo operation m m') (heffect : m.effect operation = .ok effect) :
    m'.effect operation = .ok effect := by
  cases operation with
  | nop | halt | finish => exact heffect
  | compute op destination source =>
    obtain ⟨old, value, hold, hvalue, hdiv, rfl⟩ := effect_compute_eq_ok_iff.1 heffect
    have hreads : ∀ l ∈ source.reads, l ∈ (Operation.compute op destination source).reads := by
      intro l hl
      cases op with
      | move => exact hl
      | _ => exact List.mem_cons_of_mem _ hl
    -- a move gives the same result whatever the destination holds
    obtain ⟨old', hold', hresult⟩ : ∃ old', m'.registers.get? destination = some old' ∧
        op.apply old' value = op.apply old value := by
      cases op with
      | move =>
        obtain ⟨old', hold'⟩ := h.exists_content?_eq_some (l := .register destination) hold
        exact ⟨old', hold', rfl⟩
      | _ => exact ⟨old, (h.content?_eq _ List.mem_cons_self).trans hold, rfl⟩
    rw [← hresult]
    exact effect_compute_eq_ok_iff.2
      ⟨old', value, hold', h.resolve_eq_ok hreads hvalue, hdiv, rfl⟩
  | push source =>
    obtain ⟨value, hvalue, hroom, rfl⟩ := effect_push_eq_ok_iff.1 heffect
    refine effect_push_eq_ok_iff.2 ⟨value, h.resolve_eq_ok (fun l hl => hl) hvalue, ?_, rfl⟩
    rwa [h.stack_eq rfl]
  | pop destination =>
    obtain ⟨old, value, hold, hvalue, rfl⟩ := effect_pop_eq_ok_iff.1 heffect
    obtain ⟨old', hold'⟩ := h.exists_content?_eq_some (l := .register destination) hold
    refine effect_pop_eq_ok_iff.2 ⟨old', value, hold', ?_, rfl⟩
    rwa [h.stack_eq rfl]
  | store address source =>
    obtain ⟨value, old, hvalue, hold, rfl⟩ := effect_store_eq_ok_iff.1 heffect
    obtain ⟨old', hold'⟩ := h.exists_content?_eq_some (l := .cell address) hold
    exact effect_store_eq_ok_iff.2
      ⟨value, old', h.resolve_eq_ok (fun l hl => hl) hvalue, hold', rfl⟩
  | load address destination =>
    obtain ⟨value, old, hvalue, hold, rfl⟩ := effect_load_eq_ok_iff.1 heffect
    obtain ⟨old', hold'⟩ := h.exists_content?_eq_some (l := .register destination) hold
    exact effect_load_eq_ok_iff.2
      ⟨value, old', (h.content?_eq _ List.mem_cons_self).trans hvalue, hold', rfl⟩

end SameTo

/-- An operation changes what it writes, and the stack if it uses it. -/
theorem writes_of_effect_eq_ok (h : m.effect operation = .ok effect) :
    effect.writes = operation.writes ∧ effect.usesStack = operation.usesStack := by
  cases operation with
  | nop | halt | finish =>
    cases h
    exact ⟨rfl, rfl⟩
  | compute op destination source =>
    obtain ⟨old, value, -, -, -, rfl⟩ := effect_compute_eq_ok_iff.1 h
    exact ⟨rfl, rfl⟩
  | push source =>
    obtain ⟨value, -, -, rfl⟩ := effect_push_eq_ok_iff.1 h
    exact ⟨rfl, rfl⟩
  | pop destination =>
    obtain ⟨old, value, -, -, rfl⟩ := effect_pop_eq_ok_iff.1 h
    exact ⟨rfl, rfl⟩
  | store address source =>
    obtain ⟨value, old, -, -, rfl⟩ := effect_store_eq_ok_iff.1 h
    exact ⟨rfl, rfl⟩
  | load address destination =>
    obtain ⟨value, old, -, -, rfl⟩ := effect_load_eq_ok_iff.1 h
    exact ⟨rfl, rfl⟩

/-! ### Instructions -/

theorem writes_of_effectOf_eq_ok (h : m.effectOf i = .ok effect) :
    effect.writes = i.writes ∧ effect.usesStack = i.usesStack := by
  rw [Instruction.writes, Instruction.usesStack]
  rcases effectOf_eq_ok_iff.1 h with ⟨operation, hoperation, heffect⟩ | ⟨hnone, -, rfl⟩
  · rw [hoperation]
    exact writes_of_effect_eq_ok heffect
  · rw [hnone]
    exact ⟨rfl, rfl⟩

theorem status_commit_of_effectOf_eq_ok (hm : m.status = .running)
    (hgoes : ¬ i.Is .halt ∧ ¬ i.Is .finish) (h : m.effectOf i = .ok effect) :
    (m.commit effect).status = .running := by
  have hexecutes : m.Executes i (m.commit effect) := executes_iff.2 ⟨effect, h, rfl⟩
  rw [hexecutes.status_eq hm]
  exact Instruction.leaves_eq_running_iff.2 hgoes

/-- **An independent instruction neither hinders nor helps**: behind it, the other one passes its
checks exactly when it passes them in its stead, and has the same effect. -/
theorem effectOf_commit_eq_ok_iff (h : i.Independent j) (hi : m.effectOf i = .ok effect) :
    (m.commit effect).effectOf j = .ok effect' ↔ m.effectOf j = .ok effect' := by
  obtain ⟨hwrites, hused⟩ := writes_of_effectOf_eq_ok hi
  cases hj : j.operation? with
  | none => simp [effectOf_eq_ok_iff, hj]
  | some operation =>
    have hsame : SameTo operation m (m.commit effect) := by
      constructor
      case content?_eq =>
        intro l hl
        refine content?_commit fun hmem => (h.left l (hwrites ▸ hmem)).1 ?_
        rw [Instruction.reads, hj]
        exact hl
      case none_iff => exact m.content?_commit_eq_none_iff effect
      case stack_eq =>
        intro hstack
        refine stack_commit (eq_false_of_ne_true fun heffect => h.stack ⟨hused ▸ heffect, ?_⟩)
        rw [Instruction.usesStack, hj]
        exact hstack
    rw [effectOf_of_operation?_eq_some hj, effectOf_of_operation?_eq_some hj]
    exact ⟨hsame.symm.effect_eq_ok, hsame.effect_eq_ok⟩

/-- The changes of independent instructions do not meet. -/
theorem commit_comm_of_independent (hm : m.status = .running) (h : i.Independent j)
    (hi : m.effectOf i = .ok effect) (hj : m.effectOf j = .ok effect') :
    (m.commit effect).commit effect' = (m.commit effect').commit effect := by
  obtain ⟨hwrites, hused⟩ := writes_of_effectOf_eq_ok hi
  obtain ⟨hwrites', hused'⟩ := writes_of_effectOf_eq_ok hj
  refine commit_comm ?_ ?_ ?_ ?_
  · rw [hwrites, hwrites']
    exact fun l hl => (h.left l hl).2
  · rw [hused, hused']
    exact h.stack
  · rw [status_commit_of_effectOf_eq_ok hm h.goes_on.1 hi, hm]
  · rw [status_commit_of_effectOf_eq_ok hm h.goes_on.2 hj, hm]

/-- Two steps, the first of an instruction that goes on, commit two effects. -/
theorem succeeds_twice_iff (hm : m.status = .running) (hi : program.fetch? m.pc = some i)
    (hj : program.fetch? (m.pc + 4) = some j) (hgoes : ¬ i.Is .halt ∧ ¬ i.Is .finish) :
    ((∀ k < 2, ∃ status, m.answer program k = .ok status) ∧ m.after program 2 = m') ↔
      ∃ effect effect', m.effectOf i = .ok effect ∧ (m.commit effect).effectOf j = .ok effect' ∧
        (m.commit effect).commit effect' = m' := by
  have hplan : m.plan program = m.effectOf i := plan_of_fetch?_eq_some hi
  have hplan' : ∀ effect, (m.commit effect).plan program = (m.commit effect).effectOf j :=
    fun effect => plan_of_fetch?_eq_some (by rwa [pc_commit])
  constructor
  · rintro ⟨hok, rfl⟩
    obtain ⟨status, hanswer⟩ := hok 0 (by decide)
    obtain ⟨status', hanswer'⟩ := hok 1 (by decide)
    have hfirst : m.step program = (.ok status, m.after program 1) := by
      rw [← hanswer]
      exact m.step_after program 0
    obtain ⟨-, effect, heffect, hcommit⟩ := (step_eq_ok_iff hm).1 hfirst
    rw [hplan] at heffect
    have hrunning := status_commit_of_effectOf_eq_ok hm hgoes heffect
    have hsecond : (m.commit effect).step program = (.ok status', m.after program 2) := by
      rw [← hcommit, step_after, hanswer']
    obtain ⟨-, effect', heffect', hcommit'⟩ := (step_eq_ok_iff hrunning).1 hsecond
    rw [hplan'] at heffect'
    exact ⟨effect, effect', heffect, heffect', hcommit'.symm⟩
  · rintro ⟨effect, effect', heffect, heffect', rfl⟩
    have hrunning := status_commit_of_effectOf_eq_ok hm hgoes heffect
    have hfirst := step_of_plan_eq_ok hm (hplan.trans heffect)
    have hsecond := step_of_plan_eq_ok hrunning ((hplan' effect).trans heffect')
    have hafter : m.after program 1 = m.commit effect := congrArg Prod.snd hfirst
    refine ⟨fun k hk => ?_, ?_⟩
    · obtain rfl | rfl : k = 0 ∨ k = 1 := by omega
      · exact ⟨_, congrArg Prod.fst hfirst⟩
      · exact ⟨_, by rw [answer, hafter, hsecond]⟩
    · rw [after_succ', hafter, hsecond]

theorem succeeds_twice_iff_of_independent (hm : m.status = .running)
    (hi : program.fetch? m.pc = some i) (hj : program.fetch? (m.pc + 4) = some j)
    (h : i.Independent j) :
    ((∀ k < 2, ∃ status, m.answer program k = .ok status) ∧ m.after program 2 = m') ↔
      ∃ effect effect', m.effectOf i = .ok effect ∧ m.effectOf j = .ok effect' ∧
        (m.commit effect).commit effect' = m' := by
  rw [succeeds_twice_iff hm hi hj h.goes_on.1]
  refine exists_congr fun effect => exists_congr fun effect' => and_congr_right fun heffect => ?_
  rw [effectOf_commit_eq_ok_iff h heffect]

end Machine

/-! ### Programs -/

namespace Program

variable {program : Program} {pc : Nat} {i j : Instruction}

theorem fetch?_exchange (hi : program.fetch? pc = some i) (hj : program.fetch? (pc + 4) = some j) :
    (program.exchange pc).fetch? pc = some j ∧ (program.exchange pc).fetch? (pc + 4) = some i := by
  obtain ⟨hfits, -⟩ := fetch?_eq_some_iff.1 hi
  obtain ⟨hfits', -⟩ := fetch?_eq_some_iff.1 hj
  rw [exchange, hi, hj]
  constructor
  · rw [fetch?_overwrite_of_le (.inl (Nat.le_refl _)), fetch?_overwrite_self hfits]
  · rw [fetch?_overwrite_self (by rwa [size_overwrite])]

end Program

namespace Machine

/-- **Independent instructions may be exchanged.**  Two steps, of two such instructions that stand
one behind the other in the program, succeed exactly when two steps succeed on the program with the
two exchanged, and then they lead to the same machine. -/
theorem exchange_agrees {i j : Instruction} (m : Machine) (program : Program)
    (hi : program.fetch? m.pc = some i) (hj : program.fetch? (m.pc + 4) = some j)
    (h : i.Independent j) :
    ((∀ k < 2, ∃ status, m.answer program k = .ok status) ↔
      ∀ k < 2, ∃ status, m.answer (program.exchange m.pc) k = .ok status) ∧
    ((∀ k < 2, ∃ status, m.answer program k = .ok status) →
      m.after (program.exchange m.pc) 2 = m.after program 2) := by
  by_cases hm : m.status = .running
  · obtain ⟨hi', hj'⟩ := Program.fetch?_exchange hi hj
    have hiff : ∀ m', ((∀ k < 2, ∃ status, m.answer program k = .ok status) ∧
        m.after program 2 = m') ↔
        ((∀ k < 2, ∃ status, m.answer (program.exchange m.pc) k = .ok status) ∧
          m.after (program.exchange m.pc) 2 = m') := by
      intro m'
      rw [succeeds_twice_iff_of_independent hm hi hj h,
        succeeds_twice_iff_of_independent hm hi' hj' h.symm]
      constructor
      · rintro ⟨effect, effect', heffect, heffect', rfl⟩
        exact ⟨effect', effect, heffect', heffect,
          commit_comm_of_independent hm h.symm heffect' heffect⟩
      · rintro ⟨effect', effect, heffect', heffect, rfl⟩
        exact ⟨effect, effect', heffect, heffect', commit_comm_of_independent hm h heffect heffect'⟩
    exact ⟨⟨fun hok => ((hiff _).1 ⟨hok, rfl⟩).1, fun hok => ((hiff _).2 ⟨hok, rfl⟩).1⟩,
      fun hok => ((hiff _).1 ⟨hok, rfl⟩).2⟩
  · -- a machine that has stopped stays as it is on every program
    refine ⟨iff_of_true ?_ ?_, fun _ => ?_⟩
    · exact fun k _ => ⟨_, answer_of_stopped hm program k⟩
    · exact fun k _ => ⟨_, answer_of_stopped hm (program.exchange m.pc) k⟩
    · rw [after_of_stopped hm, after_of_stopped hm]

/-- A register is divided by another one, and that other one is pushed.  Both are read by the
division, and the divisor by both instructions, but neither writes what the other one reads. -/
theorem exchange_agrees_divide_push :
    Program.exchange #[0x01, 0, 7, 0, 0x01, 1, 2, 0, 0x05, 0, 1, 1, 0x0A, 1, 1, 0] 8 =
        #[0x01, 0, 7, 0, 0x01, 1, 2, 0, 0x0A, 1, 1, 0, 0x05, 0, 1, 1] ∧
      (((powerOn { registers := 2 }).commit (.write 0 7)).commit (.write 1 2)).after
          #[0x01, 0, 7, 0, 0x01, 1, 2, 0, 0x0A, 1, 1, 0, 0x05, 0, 1, 1] 2 =
        ((((powerOn { registers := 2 }).commit (.write 0 7)).commit (.write 1 2)).commit
          (.write 0 3)).commit (.push 2) := by
  have hexchange :
      Program.exchange #[0x01, 0, 7, 0, 0x01, 1, 2, 0, 0x05, 0, 1, 1, 0x0A, 1, 1, 0] 8 =
        #[0x01, 0, 7, 0, 0x01, 1, 2, 0, 0x0A, 1, 1, 0, 0x05, 0, 1, 1] := by
    decide
  have hindependent : Instruction.Independent ⟨0x05, 0, 1, 1⟩ ⟨0x0A, 1, 1, 0⟩ :=
    ⟨by decide, by decide, by decide, by decide⟩
  obtain ⟨-, hafter⟩ := exchange_agrees
    (((powerOn { registers := 2 }).commit (.write 0 7)).commit (.write 1 2))
    #[0x01, 0, 7, 0, 0x01, 1, 2, 0, 0x05, 0, 1, 1, 0x0A, 1, 1, 0] rfl rfl hindependent
  have hpc : (((powerOn { registers := 2 }).commit (.write 0 7)).commit (.write 1 2)).pc = 8 := rfl
  rw [hpc, hexchange] at hafter
  refine ⟨hexchange, (hafter fun k hk => ?_).trans rfl⟩
  obtain rfl | rfl : k = 0 ∨ k = 1 := by omega
  · exact ⟨.running, rfl⟩
  · exact ⟨.running, rfl⟩

end Machine

end RegisterMachine
