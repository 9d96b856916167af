import Mathlib.Data.Nat.Find
import RegisterMachine.Proofs.Steps

/-!
# Runs under a flag

A run is cancelled by a flag that it looks at before every step, and again and again once the
machine has halted.  The moment at which the flag is set is given here by what the looks see: it is
the number of the first look that sees the flag set.  A run turns out to be the sequence of its
steps up to the first fault, the end of the program or that look, whichever comes first.

## Main definitions

* `Flag` and `Flag.SetAt` : what the looks of a run see, and the first look that sees the flag set;
* `Machine.Continues` and `Machine.Returns` : a turn that is followed by another, and the turn in
  which a run returns;
* `Machine.conclude` : what a run returns on a machine that has stopped by itself.

## Main statements

* `Machine.Returns.unique` : a run returns only once;
* `Machine.exists_returns_of_setAt` : once the flag is set, a run returns;
* `Machine.run_eq_conclude` : a run that is let go on to the end ends as a run until the machine
  stops;
* `Machine.run_eq_iff_returns` : runs under every flag are iterated steps.
-/

namespace RegisterMachine

/-- What the looks of a run see: look number `i` sees the flag set when the value at `i` is true. -/
abbrev Flag := Nat → Bool

namespace Flag

/-- Look `n` is the first that sees the flag set. -/
structure SetAt (flag : Flag) (n : Nat) : Prop where
  /-- The looks before it do not. -/
  before : ∀ i < n, flag i = false
  /-- It does. -/
  seen : flag n = true

/-- No look sees the flag set. -/
def NeverSet (flag : Flag) : Prop :=
  ∀ i, flag i = false

/-- The flag is not set at the beginning of a run of `m`, nor before the machine has stopped. -/
structure UnsetUntilStopped (flag : Flag) (m : Machine) (program : Program) : Prop where
  /-- The first look does not see it set. -/
  zero : flag 0 = false
  /-- No look at a running machine sees it set. -/
  running : ∀ i, (m.after program i).status = .running → flag i = false

/-- The same flag, for the run that is left after the first turn. -/
def tail (flag : Flag) : Flag := fun i => flag (i + 1)

variable {flag : Flag} {n : Nat} {m : Machine} {program : Program}

theorem SetAt.tail (h : flag.SetAt (n + 1)) : flag.tail.SetAt n where
  before i hi := h.before (i + 1) (by omega)
  seen := h.seen

theorem exists_setAt (h : ∃ i, flag i = true) : ∃ n, flag.SetAt n :=
  ⟨Nat.find h, fun _ hi => eq_false_of_ne_true (Nat.find_min h hi), Nat.find_spec h⟩

theorem UnsetUntilStopped.eq_false (hflag : flag.UnsetUntilStopped m program)
    (hn : m.StopsAt program n) : ∀ i ≤ n, flag i = false := by
  intro i hi
  cases i with
  | zero => exact hflag.zero
  | succ i =>
    have hbefore : ∀ j < i + 1, m.answer program j = .ok .running := fun j hj =>
      hn.running j (by omega)
    obtain ⟨-, -, hstatus⟩ := Machine.counters_after hbefore
    exact hflag.running (i + 1) (hstatus (Nat.succ_pos i)).2.1

end Flag

namespace Machine

/-- Turn `i` of a run is followed by another one: its look does not see the flag set, and its step
neither faults nor ends the program. -/
def Continues (m : Machine) (program : Program) (flag : Flag) (i : Nat) : Prop :=
  flag i = false ∧ (m.answer program i = .ok .running ∨ m.answer program i = .ok .halted)

/-- A run of `m` under this flag returns in turn `k`, the first that is not followed by another:
because its look sees the flag set, or because its step ends the program or faults.  Unless it
faults, it tells which of the two it was, and the registers and counters that it leaves. -/
inductive Returns (m : Machine) (program : Program) (flag : Flag) (k : Nat) :
    RunResult → Machine → Prop
  | cancelled {m' : Machine} : (∀ i < k, m.Continues program flag i) → flag k = true →
      m.after program k = m' →
      Returns m program flag k (.exited ⟨.cancelled, m'.registers, m'.steps, m'.skipped⟩) m'
  | terminated {m' : Machine} : (∀ i < k, m.Continues program flag i) → flag k = false →
      m.answer program k = .ok .terminated → m.after program (k + 1) = m' →
      Returns m program flag k (.exited ⟨.terminated, m'.registers, m'.steps, m'.skipped⟩) m'
  | faulted {e : Error} {m' : Machine} : (∀ i < k, m.Continues program flag i) →
      flag k = false → m.answer program k = .error e → m.after program k = m' →
      Returns m program flag k (.faulted e) m'

/-- What a run returns that was not cancelled before the last step of the machine, which answered
this. -/
def conclude (m : Machine) (cancel : Cancellation) : Except Error Status → RunResult
  | .error e => .faulted e
  | .ok .terminated => .exited ⟨.terminated, m.registers, m.steps, m.skipped⟩
  | .ok _ =>
    if cancel = .never then .waiting else .exited ⟨.cancelled, m.registers, m.steps, m.skipped⟩

variable {m m' : Machine} {program : Program} {flag : Flag} {cancel : Cancellation}
  {result : RunResult} {k n : Nat}

/-! ### The turn in which a run returns -/

namespace Returns

theorem continues (h : m.Returns program flag k result m') :
    ∀ i < k, m.Continues program flag i := by
  cases h <;> assumption

theorem not_continues (h : m.Returns program flag k result m') :
    ¬ m.Continues program flag k := by
  rintro ⟨hflag, hanswer⟩
  cases h with
  | cancelled _ hset => simp [hset] at hflag
  | terminated _ _ hterminated => simp [hterminated] at hanswer
  | faulted _ _ hfault => simp [hfault] at hanswer

/-- **A run returns only once.** -/
theorem unique {j : Nat} {result' : RunResult} {m'' : Machine}
    (h : m.Returns program flag j result m') (h' : m.Returns program flag k result' m'') :
    j = k ∧ result = result' ∧ m' = m'' := by
  obtain rfl : j = k := by
    rcases Nat.lt_trichotomy j k with hlt | heq | hlt
    · exact absurd (h'.continues j hlt) h.not_continues
    · exact heq
    · exact absurd (h.continues k hlt) h'.not_continues
  refine ⟨rfl, ?_⟩
  cases h <;> cases h' <;> simp_all

/-- One turn more in front. -/
theorem succ (hfirst : m.Continues program flag 0)
    (h : (m.step program).2.Returns program flag.tail k result m') :
    m.Returns program flag (k + 1) result m' := by
  have hbefore : ∀ i < k + 1, m.Continues program flag i := by
    intro i hi
    cases i with
    | zero => exact hfirst
    | succ i => exact h.continues i (by omega)
  cases h with
  | cancelled _ hset hafter => exact .cancelled hbefore hset hafter
  | terminated _ hflag hanswer hafter => exact .terminated hbefore hflag hanswer hafter
  | faulted _ hflag hanswer hafter => exact .faulted hbefore hflag hanswer hafter

/-- All steps up to the look that sees the flag set lead to the machine that a run leaves. -/
theorem eq_after (hflag : flag.SetAt n) (hk : k ≤ n) (h : m.Returns program flag k result m') :
    m' = m.after program n := by
  -- a turn whose look does not see the flag set comes before that look
  have hlt (hunset : flag k = false) : k < n := by
    rcases Nat.eq_or_lt_of_le hk with rfl | hlt
    · rw [hflag.seen] at hunset
      cases hunset
    · exact hlt
  cases h with
  | cancelled _ hset hafter =>
    obtain rfl : k = n := by
      by_contra hne
      rw [hflag.before k (by omega)] at hset
      cases hset
    exact hafter.symm
  | terminated _ hunset hanswer hafter =>
    rw [← hafter, after_eq_of_ne (by simp [hanswer]) (hlt hunset)]
  | faulted _ hunset hanswer hafter =>
    rw [← hafter, after_eq_of_ne (by simp [hanswer]) (hlt hunset),
      after_succ_of_answer_eq_error hanswer]

end Returns

/-! ### Runs that are cancelled -/

theorem run_of_status_eq_halted (hm : m.status = .halted) (n : Nat) :
    m.run program (.atFetch n) =
      (.exited ⟨.cancelled, m.registers, m.steps, m.skipped⟩, m) := by
  cases n with
  | zero =>
    rw [run_eq]
    rfl
  | succ n =>
    rw [run_eq, step_of_status_ne (by simp [hm]), hm]
    rfl

/-- One turn of a run that goes on: the machine runs, or waits for the cancel. -/
theorem run_atFetch_succ (h : m.Continues program flag 0) (n : Nat) :
    m.run program (.atFetch (n + 1)) = (m.step program).2.run program (.atFetch n) := by
  rw [run_eq]
  rcases h.2 with hrunning | hhalted
  · have hstep : m.step program = (.ok .running, (m.step program).2) := Prod.ext hrunning rfl
    rw [hstep]
    rfl
  · have hstep : m.step program = (.ok .halted, (m.step program).2) := Prod.ext hhalted rfl
    rw [run_of_status_eq_halted (status_of_step_eq_ok hstep), hstep]
    rfl

/-- **Once the flag is set, a run returns**, and as the run with a cancel at that moment. -/
theorem exists_returns_of_setAt (m : Machine) (program : Program) (hflag : flag.SetAt n) :
    ∃ k ≤ n, m.Returns program flag k (m.run program (.atFetch n)).1
      (m.run program (.atFetch n)).2 := by
  induction n generalizing m flag with
  | zero =>
    rw [run_eq]
    exact ⟨0, Nat.le_refl 0, .cancelled (by simp) hflag.seen rfl⟩
  | succ n ih =>
    have hfirst : flag 0 = false := hflag.before 0 (by omega)
    by_cases hcontinues : m.Continues program flag 0
    · obtain ⟨k, hk, hreturns⟩ := ih (m.step program).2 hflag.tail
      rw [run_atFetch_succ hcontinues]
      exact ⟨k + 1, by omega, hreturns.succ hcontinues⟩
    · -- the first turn is the last
      refine ⟨0, Nat.zero_le _, ?_⟩
      cases hstep : m.step program with | mk answer m' =>
      have hanswer : m.answer program 0 = answer := congrArg Prod.fst hstep
      have hafter : m.after program 1 = m' := congrArg Prod.snd hstep
      rw [run_eq, hstep]
      cases answer with
      | error e =>
        rw [after_succ_of_answer_eq_error hanswer] at hafter
        exact .faulted (by simp) hfirst hanswer hafter
      | ok status =>
        cases status with
        | terminated => exact .terminated (by simp) hfirst hanswer hafter
        | running => exact absurd ⟨hfirst, .inl hanswer⟩ hcontinues
        | halted => exact absurd ⟨hfirst, .inr hanswer⟩ hcontinues

/-! ### Runs that are let go on to the end -/

/-- Without a cancel a run returns the same as with one, but it waits where it has halted. -/
theorem conclude_never_iff {answer : Except Error Status} (h : answer ≠ .ok .running) :
    m.conclude .never answer = result ∧ result ≠ .waiting ↔
      m.conclude .onceHalted answer = result ∧ answer ≠ .ok .halted := by
  cases answer with
  | error e =>
    constructor <;> rintro ⟨rfl, -⟩ <;> simp [conclude]
  | ok status =>
    cases status with
    | running => exact absurd rfl h
    | halted =>
      constructor
      · rintro ⟨rfl, hne⟩
        exact absurd rfl hne
      · rintro ⟨-, hne⟩
        exact absurd rfl hne
    | terminated =>
      constructor <;> rintro ⟨rfl, -⟩ <;> simp [conclude]

/-- **A run that is not cancelled before the machine has stopped ends as a run until then.** -/
theorem run_eq_conclude (hdue : cancel.isDue = false) (hafter : cancel.afterFetch = cancel) :
    m.run program cancel = ((m.runUntilHalt program).2.conclude cancel (m.runUntilHalt program).1,
      (m.runUntilHalt program).2) := by
  fun_induction runUntilHalt m program with
  | case1 m m' hstep ih =>
    rw [run_eq, hdue, hstep]
    simpa [hafter] using ih
  | case2 m hstopped =>
    rw [run_eq, hdue]
    cases hstep : m.step program with | mk answer m' =>
    cases answer with
    | error e => rfl
    | ok status =>
      cases status with
      | running => exact absurd hstep (hstopped m')
      | halted => cases cancel <;> rfl
      | terminated => rfl

/-- A run of a machine that halts returns in a turn whose look sees the flag set. -/
theorem Returns.seen_of_halts (hn : m.StopsAt program n)
    (hhalted : m.answer program n = .ok .halted) (h : m.Returns program flag k result m') :
    flag k = true := by
  have hanswer := hn.running_or_halted hhalted k
  cases h with
  | cancelled _ hset => exact hset
  | terminated _ _ hterminated => simp [hterminated] at hanswer
  | faulted _ _ hfault => simp [hfault] at hanswer

/-- A run that is not cancelled before the last step returns with it, unless that step halts. -/
theorem returns_of_stopsAt (hk : m.StopsAt program k) (hne : m.answer program k ≠ .ok .halted)
    (hflag : ∀ i ≤ k, flag i = false) (cancel : Cancellation) :
    m.Returns program flag k ((m.after program (k + 1)).conclude cancel (m.answer program k))
      (m.after program (k + 1)) := by
  have hbefore : ∀ i < k, m.Continues program flag i := fun i hi =>
    ⟨hflag i (by omega), .inl (hk.running i hi)⟩
  cases hanswer : m.answer program k with
  | error e =>
    rw [after_succ_of_answer_eq_error hanswer]
    exact .faulted hbefore (hflag k (Nat.le_refl k)) hanswer rfl
  | ok status =>
    cases status with
    | running => exact absurd hanswer hk.stops
    | halted => exact absurd hanswer hne
    | terminated => exact .terminated hbefore (hflag k (Nat.le_refl k)) hanswer rfl

/-- A run that is not cancelled before the machine halts returns with a later cancel. -/
theorem returns_of_halts (hk : m.StopsAt program k) (hhalted : m.answer program k = .ok .halted)
    (hset : flag.SetAt n) (hlt : k < n) :
    m.Returns program flag n ((m.after program (k + 1)).conclude .onceHalted (.ok .halted))
      (m.after program (k + 1)) :=
  .cancelled (fun i hi => ⟨hset.before i hi, hk.running_or_halted hhalted i⟩) hset.seen
    (after_eq_of_ne hk.stops hlt)

/-- A run that is not cancelled before the machine has stopped returns what the last step amounts
to, unless the machine has halted and the flag is never set. -/
theorem exists_returns_iff (hn : m.StopsAt program n) (hflag : ∀ i ≤ n, flag i = false) :
    (∃ k, m.Returns program flag k result m') ↔
      ((m.after program (n + 1)).conclude .onceHalted (m.answer program n),
        m.after program (n + 1)) = (result, m') ∧
      (m.answer program n = .ok .halted → ∃ i, flag i = true) := by
  by_cases hhalted : m.answer program n = .ok .halted
  · have hreturns {j : Nat} (hj : flag.SetAt j) : n < j := by
      by_contra hle
      have hseen := hj.seen
      rw [hflag j (by omega)] at hseen
      cases hseen
    rw [hhalted]
    constructor
    · rintro ⟨k, h⟩
      have hseen := h.seen_of_halts hn hhalted
      obtain ⟨j, hj⟩ := Flag.exists_setAt ⟨k, hseen⟩
      obtain ⟨-, rfl, rfl⟩ := h.unique (returns_of_halts hn hhalted hj (hreturns hj))
      exact ⟨rfl, fun _ => ⟨k, hseen⟩⟩
    · rintro ⟨⟨rfl, rfl⟩, hset⟩
      obtain ⟨j, hj⟩ := Flag.exists_setAt (hset rfl)
      exact ⟨j, returns_of_halts hn hhalted hj (hreturns hj)⟩
  · have hlast := returns_of_stopsAt hn hhalted hflag .onceHalted
    constructor
    · rintro ⟨k, h⟩
      obtain ⟨-, rfl, rfl⟩ := h.unique hlast
      exact ⟨rfl, fun h => absurd h hhalted⟩
    · rintro ⟨heq, -⟩
      obtain ⟨rfl, rfl⟩ := Prod.mk.inj heq
      exact ⟨n, hlast⟩

theorem run_onceHalted_iff_returns (hflag : flag.UnsetUntilStopped m program) :
    m.run program .onceHalted = (result, m') ∧
        ((m.runUntilHalt program).1 = .ok .halted → ∃ i, flag i = true) ↔
      ∃ k, m.Returns program flag k result m' := by
  obtain ⟨n, hn, -⟩ := m.exists_stopsAt program
  rw [exists_returns_iff hn (hflag.eq_false hn), run_eq_conclude rfl rfl,
    runUntilHalt_of_stopsAt hn]

theorem run_never_iff_returns (hflag : flag.NeverSet) :
    m.run program .never = (result, m') ∧ result ≠ .waiting ↔
      ∃ k, m.Returns program flag k result m' := by
  obtain ⟨n, hn, -⟩ := m.exists_stopsAt program
  rw [exists_returns_iff hn fun i _ => hflag i, run_eq_conclude rfl rfl,
    runUntilHalt_of_stopsAt hn]
  have hnone : ¬ ∃ i, flag i = true := by
    rintro ⟨i, hi⟩
    rw [hflag i] at hi
    cases hi
  simp only [Prod.mk.injEq, hnone, imp_false]
  rw [and_right_comm, conclude_never_iff hn.stops, and_right_comm]

/-! ### Every run -/

/-- **Runs are iterated steps.**  Where look `n` is the first that sees the flag set, a run returns
in one of its turns up to that look, with what the steps of these turns make of the machine, which
is what any steps up to the look make of it; no more than `n` instructions were executed.  Unless it
faults it tells why it returned, and the registers and both counters of that machine.  A run whose
flag is never set returns with the end of the program or a fault, or it waits.  A run whose flag is
not set before the machine has stopped ends as a run until then, and returns when the machine has
halted only once the flag is set. -/
theorem run_eq_iff_returns (m : Machine) (program : Program) (flag : Flag) :
    (∀ n, flag.SetAt n →
      (∀ result m', m.run program (.atFetch n) = (result, m') ↔
        ∃ k ≤ n, m.Returns program flag k result m') ∧
      (m.run program (.atFetch n)).2 = m.after program n ∧
      (m.after program n).steps ≤ m.steps + n) ∧
    (flag.NeverSet → ∀ result m', m.run program .never = (result, m') ∧ result ≠ .waiting ↔
      ∃ k, m.Returns program flag k result m') ∧
    (flag.UnsetUntilStopped m program → ∀ result m',
      m.run program .onceHalted = (result, m') ∧
          ((m.runUntilHalt program).1 = .ok .halted → ∃ i, flag i = true) ↔
        ∃ k, m.Returns program flag k result m') ∧
    m.run program .onceHalted =
      ((m.runUntilHalt program).2.conclude .onceHalted (m.runUntilHalt program).1,
        (m.runUntilHalt program).2) := by
  refine ⟨fun n hset => ?_, fun hnever _ _ => run_never_iff_returns hnever,
    fun hunset _ _ => run_onceHalted_iff_returns hunset, run_eq_conclude rfl rfl⟩
  obtain ⟨k, hk, hreturns⟩ := m.exists_returns_of_setAt program hset
  refine ⟨fun result m' => ⟨?_, ?_⟩, hreturns.eq_after hset hk, (m.steps_after_le program n).2⟩
  · intro h
    rw [h] at hreturns
    exact ⟨k, hk, hreturns⟩
  · rintro ⟨j, -, h⟩
    obtain ⟨-, rfl, rfl⟩ := h.unique hreturns
    rfl

/-- A program that ends at once, cancelled while it does, and one that moves a word into a register
and halts: cancelled while the first instruction is fetched, without a cancel, and cancelled some
time after the machine has halted. -/
theorem run_eq_iff_returns_move_halt :
    (powerOn { registers := 1 }).run #[0xFF, 0, 0, 0] (.atFetch 1) =
      (.exited ⟨.terminated, ⟨#[0]⟩, 1, 0⟩,
        (powerOn { registers := 1 }).commit (.stop .terminated)) ∧
    (powerOn { registers := 1 }).run #[0x01, 0, 5, 0, 0x09, 0, 0, 0] (.atFetch 1) =
      (.exited ⟨.cancelled, ⟨#[5]⟩, 1, 0⟩, (powerOn { registers := 1 }).commit (.write 0 5)) ∧
    (¬ ∃ k result m', (powerOn { registers := 1 }).Returns #[0x01, 0, 5, 0, 0x09, 0, 0, 0]
      (fun _ => false) k result m') ∧
    ∃ k, (powerOn { registers := 1 }).Returns #[0x01, 0, 5, 0, 0x09, 0, 0, 0] (3 ≤ ·) k
      (.exited ⟨.cancelled, ⟨#[5]⟩, 2, 0⟩)
      (((powerOn { registers := 1 }).commit (.write 0 5)).commit (.stop .halted)) := by
  have hmove : (powerOn { registers := 1 }).step #[0x01, 0, 5, 0, 0x09, 0, 0, 0] =
      (.ok .running, (powerOn { registers := 1 }).commit (.write 0 5)) := rfl
  have hhalt : ((powerOn { registers := 1 }).commit (.write 0 5)).step
        #[0x01, 0, 5, 0, 0x09, 0, 0, 0] = (.ok .halted,
          ((powerOn { registers := 1 }).commit (.write 0 5)).commit (.stop .halted)) := rfl
  have hset : Flag.SetAt (1 ≤ ·) 1 := ⟨by decide, rfl⟩
  refine ⟨?_, ?_, ?_, ?_⟩
  · refine (((run_eq_iff_returns _ _ _).1 1 hset).1 _ _).2 ⟨0, Nat.zero_le 1, ?_⟩
    exact .terminated (by simp) rfl rfl rfl
  · refine (((run_eq_iff_returns _ _ _).1 1 hset).1 _ _).2 ⟨1, Nat.le_refl 1, ?_⟩
    refine .cancelled (fun i hi => ?_) rfl rfl
    obtain rfl : i = 0 := by omega
    exact ⟨rfl, .inl rfl⟩
  · rintro ⟨k, result, m', h⟩
    obtain ⟨hrun, hne⟩ := ((run_eq_iff_returns _ _ _).2.1 (fun _ => rfl) result m').2 ⟨k, h⟩
    rw [run_eq, hmove] at hrun
    change run _ _ .never = _ at hrun
    rw [run_eq, hhalt] at hrun
    exact hne (Prod.mk.inj hrun).1.symm
  · have hunset : Flag.UnsetUntilStopped (3 ≤ ·) (powerOn { registers := 1 })
        #[0x01, 0, 5, 0, 0x09, 0, 0, 0] := by
      refine ⟨rfl, fun i hi => ?_⟩
      rcases Nat.lt_or_ge 1 i with hlt | hle
      · rw [after_eq_of_ne (k := 1) (by rw [answer, after_succ, hmove]; decide) hlt] at hi
        cases hi
      · exact decide_eq_false (by omega)
    refine ((run_eq_iff_returns _ _ _).2.2.1 hunset _ _).1 ⟨?_, fun _ => ⟨3, rfl⟩⟩
    rw [run_eq, hmove]
    change run _ _ .onceHalted = _
    rw [run_eq, hhalt]
    rfl

end Machine

end RegisterMachine
