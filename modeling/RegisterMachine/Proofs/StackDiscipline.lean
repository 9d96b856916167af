import RegisterMachine.Proofs.History

/-!
# Pushes and the pops that match them

A step puts at most one word on the stack or takes one off, and always at the top.  What lies at the
bottom therefore stays there for as long as the stack does not get lower than it, whatever is pushed
and popped above it and whichever programs do so.  The first pop that finds the stack as high as a
push has left it takes off the word that was pushed.

## Main definitions

* `Machine.Pushes` and `Machine.Pops` : steps that execute a push or a pop.

## Main statements

* `Machine.isPrefix_toList_step` and `Machine.isPrefix_toList_along` : the words at the bottom stay
  while the stack is as high as they are, for one step and for many;
* `Machine.stack_discipline` : a pop gives back what the matching push was given.
-/

namespace RegisterMachine

namespace Machine

/-- A step of `m` on the program executes a push of `x`. -/
def Pushes (m : Machine) (program : Program) (x : Word) : Prop :=
  ∃ value flag c, m.Completes program ⟨0x0A, value, flag, c⟩ ∧ m.Resolves value flag x

/-- A step of `m` on the program executes a pop into a register. -/
def Pops (m : Machine) (program : Program) (destination : Word) : Prop :=
  ∃ b c, m.Completes program ⟨0x0B, destination, b, c⟩

variable {m m' : Machine} {program : Program} {programs : Nat → Program} {i : Instruction}
  {held : List Word} {j k n : Nat} {destination x : Word}

/-! ### One step -/

/-- Of the rows of the instruction table, those of pushes and pops change the stack. -/
theorem Executes.pushes_or_pops_or_eq (h : m.Executes i m') :
    (∃ v, m.stack.Pushes v m'.stack) ∨ (∃ v, m.stack.Pops v m'.stack) ∨ m'.stack = m.stack := by
  cases h with
  | push c hv hpushes => exact .inl ⟨_, hpushes⟩
  | pop b c hpops hupdates => exact .inr (.inl ⟨_, hpops⟩)
  | nop | compute | halt | store | load | finish | skip => exact .inr (.inr rfl)

theorem Pushes.toList_step (h : m.Pushes program x) :
    (m.step program).2.stack.toList = m.stack.toList ++ [x] := by
  obtain ⟨value, flag, c, hcompletes, hx⟩ := h
  obtain ⟨v, stack, hv, hpushes, heq⟩ := performs_push_iff.1 (hcompletes.performs rfl)
  rw [heq, hx.unique hv]
  exact hpushes.toList_eq

theorem Pops.exists_toList_eq (h : m.Pops program destination) :
    ∃ v, m.stack.toList = (m.step program).2.stack.toList ++ [v] ∧
      m.registers.Updates destination v (m.step program).2.registers := by
  obtain ⟨b, c, hcompletes⟩ := h
  obtain ⟨v, stack, registers, hpops, hupdates, heq⟩ :=
    performs_pop_iff.1 (hcompletes.performs rfl)
  rw [heq]
  exact ⟨v, hpops.toList_eq, hupdates⟩

/-- **A step leaves the words at the bottom of the stack** unless the stack gets lower than they
are high. -/
theorem isPrefix_toList_step (h : held <+: m.stack.toList)
    (hheight : held.length ≤ (m.step program).2.stack.height) :
    held <+: (m.step program).2.stack.toList := by
  rcases m.step_eq_or_completes program with heq | ⟨i, hi⟩
  · rwa [heq]
  · rcases hi.executes.pushes_or_pops_or_eq with ⟨v, hpushes⟩ | ⟨v, hpops⟩ | heq
    · rw [hpushes.toList_eq]
      exact h.trans (List.prefix_append _ _)
    · -- the word that went was above them
      rw [hpops.toList_eq] at h
      rw [← Stack.length_toList] at hheight
      exact List.prefix_of_prefix_length_le h (List.prefix_append _ _) hheight
    · rwa [heq]

/-! ### Histories -/

theorem isPrefix_toList_along (hkn : k ≤ n) (h : held <+: (m.along programs k).stack.toList)
    (hheight : ∀ i, k < i → i ≤ n → held.length ≤ (m.along programs i).stack.height) :
    held <+: (m.along programs n).stack.toList := by
  induction hkn with
  | refl => exact h
  | @step n hkn ih =>
    have hbefore := ih fun i hki hin => hheight i hki (Nat.le_succ_of_le hin)
    exact isPrefix_toList_step hbefore (hheight (n + 1) (Nat.lt_succ_of_le hkn) le_rfl)

/-- The bottom words are not changed while the stack is never lower. -/
theorem take_toList_along (h : ∀ i ≤ n, j ≤ (m.along programs i).stack.height) :
    (m.along programs n).stack.toList.take j = m.stack.toList.take j := by
  have hlength : (m.stack.toList.take j).length = j := by
    have hj := h 0 (Nat.zero_le n)
    rw [List.length_take, Stack.length_toList]
    exact Nat.min_eq_left hj
  have hkept : m.stack.toList.take j <+: (m.along programs n).stack.toList := by
    refine isPrefix_toList_along (k := 0) (Nat.zero_le n) (List.take_prefix _ _) fun i _ hin => ?_
    rw [hlength]
    exact h i hin
  rw [List.prefix_iff_eq_take.1 hkept, hlength]

/-- A word that was pushed is on top when the stack is as high again, with the same words below. -/
theorem toList_along_of_pushes (hpush : m.Pushes (programs 0) x)
    (habove : ∀ i, 0 < i → i ≤ n → m.stack.height < (m.along programs i).stack.height)
    (hheight : (m.along programs n).stack.height = m.stack.height + 1) :
    (m.along programs n).stack.toList = m.stack.toList ++ [x] := by
  have hlength : (m.stack.toList ++ [x]).length = m.stack.height + 1 := by
    rw [List.length_append, Stack.length_toList, List.length_singleton]
  have hn : 1 ≤ n := by
    rw [Nat.one_le_iff_ne_zero]
    rintro rfl
    exact absurd hheight (Nat.ne_of_lt (Nat.lt_succ_self _))
  have hkept : m.stack.toList ++ [x] <+: (m.along programs n).stack.toList := by
    refine isPrefix_toList_along hn ?_ fun i hi hin => ?_
    · rw [← hpush.toList_step]
      exact List.prefix_rfl
    · rw [hlength]
      exact habove i (Nat.zero_lt_of_lt hi) hin
  refine (hkept.eq_of_length ?_).symm
  rw [hlength, Stack.length_toList, hheight]

/-- **A pop gives back what the matching push was given.**  In whatever programs a machine
executes, the lowest words of its stack stay as they are for as long as the stack is never lower
than they are high.  So when a word was pushed, the stack was higher from then on, and a pop finds
it just one word higher, then this pop puts the word that was pushed into its register, and the
stack is what it was before. -/
theorem stack_discipline (m : Machine) (programs : Nat → Program) (n : Nat) :
    (∀ j, (∀ i ≤ n, j ≤ (m.along programs i).stack.height) →
        ∀ i ≤ n, (m.along programs i).stack.toList.take j = m.stack.toList.take j) ∧
      ∀ x destination, m.Pushes (programs 0) x →
        (∀ i, 0 < i → i ≤ n → m.stack.height < (m.along programs i).stack.height) →
        (m.along programs n).stack.height = m.stack.height + 1 →
        (m.along programs n).Pops (programs n) destination →
        (m.along programs n).registers.Updates destination x
            (m.along programs (n + 1)).registers ∧
          (m.along programs (n + 1)).stack.toList = m.stack.toList := by
  constructor
  · intro j h i hin
    exact take_toList_along fun i' hi' => h i' (Nat.le_trans hi' hin)
  · intro x destination hpush habove hheight hpop
    obtain ⟨v, hv, hupdates⟩ := hpop.exists_toList_eq
    rw [toList_along_of_pushes hpush habove hheight] at hv
    obtain ⟨hbelow, htop⟩ := List.append_inj' hv rfl
    obtain rfl : x = v := List.singleton_inj.1 htop
    exact ⟨hupdates, hbelow.symm⟩

/-- Between a push and its pop, another program pushes a word that is popped first. -/
theorem stack_discipline_nested :
    let programs : Nat → Program := fun i =>
      if i = 1 then #[0, 0, 0, 0, 0x0A, 9, 0, 0]
      else #[0x0A, 7, 0, 0, 0, 0, 0, 0, 0x0B, 0, 0, 0, 0x0B, 0, 0, 0]
    let m := powerOn { registers := 1 }
    (m.along programs 3).registers.Updates 0 7 (m.along programs 4).registers ∧
      (m.along programs 4).stack.toList = [] := by
  obtain ⟨-, hmatching⟩ := stack_discipline (powerOn { registers := 1 })
    (fun i =>
      if i = 1 then #[0, 0, 0, 0, 0x0A, 9, 0, 0]
      else #[0x0A, 7, 0, 0, 0, 0, 0, 0, 0x0B, 0, 0, 0, 0x0B, 0, 0, 0])
    3
  refine hmatching 7 0 ⟨7, 0, 0, ⟨rfl, rfl, _, rfl⟩, .inl ⟨rfl, rfl⟩⟩ ?above rfl
    ⟨0, 0, rfl, rfl, _, rfl⟩
  intro i h₀ h₃
  have hi : i = 1 ∨ i = 2 ∨ i = 3 := by omega
  rcases hi with rfl | rfl | rfl
  · exact Nat.zero_lt_succ 0
  · exact Nat.zero_lt_succ 1
  · exact Nat.zero_lt_succ 0

end Machine

end RegisterMachine
