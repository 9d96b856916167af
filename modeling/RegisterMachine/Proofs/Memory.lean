import RegisterMachine.Proofs.History

/-!
# What memory remembers

A cell of the memory holds what was last stored at its address, and zero if nothing was.  Only a
store that is executed without a fault changes a cell, and only the cell at its own address; a load
reads what is held there.  So the content of the memory is told by the stores of a history alone,
whatever programs they came from and whatever was executed between them.

## Main definitions

* `Machine.Stores` and `Machine.Loads` : steps that execute a store or a load;
* `Machine.LastStored` : the word that the last store of a history put at an address.

## Main statements

* `Machine.Stores.updates` and `Machine.getElem?_memory_step` : a store changes its cell, and
  nothing else does;
* `Machine.holds_along_iff_lastStored` : the content of a cell is what was last stored there;
* `Machine.memory_faithful` : the same with what loads read.
-/

namespace RegisterMachine

namespace Machine

/-- A step of `m` on the program executes a store of `v` at the address. -/
def Stores (m : Machine) (program : Program) (address v : Word) : Prop :=
  ∃ value flag, m.Completes program ⟨0x0C, address, value, flag⟩ ∧ m.Resolves value flag v

/-- A step of `m` on the program executes a load from the address to a register. -/
def Loads (m : Machine) (program : Program) (address destination : Word) : Prop :=
  ∃ c, m.Completes program ⟨0x0D, address, destination, c⟩

/-- `v` is the word that the last store at the address put there, in the first `k` steps on these
programs, or it is zero when there was none. -/
inductive LastStored (m : Machine) (programs : Nat → Program) (k : Nat) (address : Word) :
    Word → Prop
  | stored {i : Nat} {v : Word} : i < k → (m.along programs i).Stores (programs i) address v →
      (∀ j, i < j → j < k → ∀ u, ¬ (m.along programs j).Stores (programs j) address u) →
      LastStored m programs k address v
  | never : (∀ i < k, ∀ u, ¬ (m.along programs i).Stores (programs i) address u) →
      LastStored m programs k address 0

variable {config : Config} {m m' : Machine} {program : Program} {programs : Nat → Program}
  {i : Instruction} {k : Nat} {address destination value flag u v w : Word}

/-! ### One step -/

/-- Of the rows of the instruction table, only that of stores changes the memory. -/
theorem Executes.updates_memory_or_eq (h : m.Executes i m') :
    (∃ address value flag v, i = ⟨0x0C, address, value, flag⟩ ∧ m.Resolves value flag v ∧
      m.memory.Updates address v m'.memory) ∨ m'.memory = m.memory := by
  cases h with
  | store hv hupdates => exact .inl ⟨_, _, _, _, rfl, hv, hupdates⟩
  | nop | compute | halt | push | pop | load | finish | skip => exact .inr rfl

theorem Stores.updates (h : m.Stores program address v) :
    m.memory.Updates address v (m.step program).2.memory := by
  obtain ⟨value, flag, hcompletes, hv⟩ := h
  obtain ⟨w, memory, hw, hupdates, heq⟩ := performs_store_iff.1 (hcompletes.performs rfl)
  rw [heq, hv.unique hw]
  exact hupdates

theorem Stores.unique (hv : m.Stores program address v) (hw : m.Stores program address w) :
    v = w :=
  hv.updates.holds.unique hw.updates.holds

/-- **Nothing but a store at its address changes a cell.** -/
theorem getElem?_memory_step (haddress : 0 ≤ address.toInt)
    (h : ∀ u, ¬ m.Stores program address u) :
    (m.step program).2.memory.cells[address.toInt.toNat]? =
      m.memory.cells[address.toInt.toNat]? := by
  rcases m.step_eq_or_completes program with heq | ⟨i, hi⟩
  · rw [heq]
  · rcases hi.executes.updates_memory_or_eq with ⟨a, value, flag, v, rfl, hv, hupdates⟩ | heq
    · -- the store is at another address
      apply hupdates.elsewhere
      intro hsame
      have ha : address = a := Int32.toInt_inj.1 (by omega)
      rw [ha] at h
      exact h v ⟨value, flag, hi, hv⟩
    · rw [heq]

theorem holds_memory_step_iff (h : ∀ u, ¬ m.Stores program address u) :
    (m.step program).2.memory.Holds address v ↔ m.memory.Holds address v := by
  refine and_congr_right fun haddress => ?_
  rw [getElem?_memory_step haddress h]

/-- A load puts into its destination what memory holds at its address. -/
theorem Loads.updates (h : m.Loads program address destination) (hv : m.memory.Holds address v) :
    m.registers.Updates destination v (m.step program).2.registers := by
  obtain ⟨c, hcompletes⟩ := h
  obtain ⟨w, registers, hw, hupdates, heq⟩ := performs_load_iff.1 (hcompletes.performs rfl)
  rw [heq, hv.unique hw]
  exact hupdates

/-! ### Histories -/

theorem lastStored_zero_iff : m.LastStored programs 0 address v ↔ v = 0 := by
  constructor
  · rintro (⟨hi, -, -⟩ | -)
    · exact absurd hi (Nat.not_lt_zero _)
    · rfl
  · rintro rfl
    exact .never fun i hi => absurd hi (Nat.not_lt_zero i)

/-- What a store puts at its address is what was last stored there. -/
theorem lastStored_succ_of_stores (h : (m.along programs k).Stores (programs k) address u) :
    m.LastStored programs (k + 1) address v ↔ v = u := by
  constructor
  · rintro (⟨hi, hv, hlast⟩ | hnever)
    · rename_i i
      -- it is the last step, so no other store is the last one
      rcases Nat.lt_or_eq_of_le (Nat.le_of_lt_succ hi) with hlt | rfl
      · exact absurd h (hlast k hlt (Nat.lt_succ_self k) u)
      · exact hv.unique h
    · exact absurd h (hnever k (Nat.lt_succ_self k) u)
  · rintro rfl
    exact .stored (Nat.lt_succ_self k) h fun j hj hk => absurd hk (by omega)

/-- Any other step leaves what was last stored as it is. -/
theorem lastStored_succ_of_not_stores
    (h : ∀ u, ¬ (m.along programs k).Stores (programs k) address u) :
    m.LastStored programs (k + 1) address v ↔ m.LastStored programs k address v := by
  constructor
  · rintro (⟨hi, hv, hlast⟩ | hnever)
    · rename_i i
      rcases Nat.lt_or_eq_of_le (Nat.le_of_lt_succ hi) with hlt | rfl
      · exact .stored hlt hv fun j hj hk => hlast j hj (by omega)
      · exact absurd hv (h v)
    · exact .never fun i hi => hnever i (by omega)
  · rintro (⟨hi, hv, hlast⟩ | hnever)
    · refine .stored (Nat.lt_succ_of_lt hi) hv fun j hj hk => ?_
      rcases Nat.lt_or_eq_of_le (Nat.le_of_lt_succ hk) with hlt | rfl
      · exact hlast j hj hlt
      · exact h
    · exact .never (Nat.forall_lt_succ_right.2 ⟨hnever, h⟩)

/-- Some word was last stored at each address. -/
theorem exists_lastStored (m : Machine) (programs : Nat → Program) (k : Nat) (address : Word) :
    ∃ v, m.LastStored programs k address v := by
  induction k with
  | zero => exact ⟨0, lastStored_zero_iff.2 rfl⟩
  | succ k ih =>
    by_cases hstores : ∃ u, (m.along programs k).Stores (programs k) address u
    · obtain ⟨u, hu⟩ := hstores
      exact ⟨u, (lastStored_succ_of_stores hu).2 rfl⟩
    · obtain ⟨v, hv⟩ := ih
      exact ⟨v, (lastStored_succ_of_not_stores fun u hu => hstores ⟨u, hu⟩).2 hv⟩

/-- **The content of a cell is what was last stored there.** -/
theorem holds_along_iff_lastStored (hzero : ∀ v, m.memory.Holds address v ↔ v = 0)
    (programs : Nat → Program) (k : Nat) (v : Word) :
    (m.along programs k).memory.Holds address v ↔ m.LastStored programs k address v := by
  induction k generalizing v with
  | zero => exact (hzero v).trans lastStored_zero_iff.symm
  | succ k ih =>
    by_cases hstores : ∃ u, (m.along programs k).Stores (programs k) address u
    · obtain ⟨u, hu⟩ := hstores
      rw [lastStored_succ_of_stores hu]
      constructor
      · intro hv
        exact hv.unique hu.updates.holds
      · rintro rfl
        exact hu.updates.holds
    · have hnot : ∀ u, ¬ (m.along programs k).Stores (programs k) address u :=
        fun u hu => hstores ⟨u, hu⟩
      rw [lastStored_succ_of_not_stores hnot, ← ih]
      exact holds_memory_step_iff hnot

/-- **Memory is a faithful store.**  Since a machine was switched on or reset, whatever programs it
was given step by step, every address holds the word that was last stored there, or zero when there
was none; a load puts this word into its destination; and a step that does not execute a store at an
address leaves what is held there. -/
theorem memory_faithful (hm : m.Fresh config) (programs : Nat → Program) (k : Nat)
    (address : Word) (haddress : 0 ≤ address.toInt ∧ address.toInt < config.memory) :
    (∃ v, (m.along programs k).memory.Holds address v) ∧
      (∀ v, (m.along programs k).memory.Holds address v ↔ m.LastStored programs k address v) ∧
      (∀ v destination, m.LastStored programs k address v →
        (m.along programs k).Loads (programs k) address destination →
        (m.along programs k).registers.Updates destination v
          (m.along programs (k + 1)).registers) ∧
      ((∀ u, ¬ (m.along programs k).Stores (programs k) address u) →
        (m.along programs (k + 1)).memory.cells[address.toInt.toNat]? =
          (m.along programs k).memory.cells[address.toInt.toNat]?) := by
  obtain rfl := hm.eq_powerOn
  have hcell : (Bank.zeros config.memory).HasCell address := by
    rwa [Bank.HasCell, Bank.size_zeros]
  have hzero : ∀ v, (powerOn config).memory.Holds address v ↔ v = 0 :=
    fun v => Bank.holds_zeros_iff hcell
  have hholds := holds_along_iff_lastStored hzero programs k
  refine ⟨?_, hholds, fun v destination hlast hload => ?_, fun h => ?_⟩
  · obtain ⟨v, hlast⟩ := exists_lastStored (powerOn config) programs k address
    exact ⟨v, (hholds v).2 hlast⟩
  · exact hload.updates ((hholds v).2 hlast)
  · exact getElem?_memory_step haddress.1 h

/-- A word is stored, kept by a store of another program that faults, and loaded. -/
theorem memory_faithful_between :
    let programs : Nat → Program := fun i =>
      if i = 1 then #[0, 0, 0, 0, 0x0C, 2, 9, 0] else #[0x0C, 1, 7, 0, 0x0D, 1, 0, 0]
    let m := powerOn { registers := 1, memory := 2 }
    (m.along programs 2).memory.Holds 1 7 ∧
      (m.along programs 2).registers.Updates 0 7 (m.along programs 3).registers := by
  have hfresh : (powerOn { registers := 1, memory := 2 }).Fresh { registers := 1, memory := 2 } :=
    .built (.ofConfig rfl)
  obtain ⟨-, hholds, hload, -⟩ := memory_faithful hfresh
    (fun i => if i = 1 then #[0, 0, 0, 0, 0x0C, 2, 9, 0] else #[0x0C, 1, 7, 0, 0x0D, 1, 0, 0])
    2 1 (by decide)
  refine ⟨(hholds 7).2 ?stored, hload 7 0 ?stored ⟨0, rfl, rfl, _, rfl⟩⟩
  refine .stored (i := 0) (by decide) ⟨7, 0, ⟨rfl, rfl, _, rfl⟩, .inl ⟨rfl, rfl⟩⟩ ?_
  rintro j h₀ h₂ u ⟨_, _, ⟨-, -, status, hsucceeds⟩, -⟩
  -- the step in between is a fault
  obtain rfl : j = 1 := by omega
  cases hsucceeds

end Machine

end RegisterMachine
