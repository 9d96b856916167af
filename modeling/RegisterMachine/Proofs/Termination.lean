import RegisterMachine.Proofs.Polling

/-!
# Every program stops

There are no jumps, so each instruction that a machine executes leaves fewer words of the program in
front of it.  Whatever the program is and wherever the machine stands in it, a run until the machine
stops ends after one step for each whole instruction ahead and one more at the latest, and so does a
run with a flag that is never set, unless the machine halts: only then does a run wait for the flag.

## Main statements

* `Machine.StopsAt.le` : there are no more steps before the last than there are instructions ahead;
* `Machine.stops_within` : the steps of both kinds of run, and the runs that wait.
-/

namespace RegisterMachine

namespace Machine

variable {m : Machine} {program : Program} {k : Nat}

/-- No more steps leave the machine running than there are whole instructions ahead. -/
theorem StopsAt.le (h : m.StopsAt program k) : k ≤ (program.size - m.pc) / 4 := by
  obtain ⟨-, -, hahead⟩ := counters_after h.running
  rcases Nat.eq_zero_or_pos k with rfl | hpos
  · exact Nat.zero_le _
  · obtain ⟨-, -, hfits⟩ := hahead hpos
    omega

/-- The first step of a machine that has stopped, or is past the end of the program, is the last. -/
theorem StopsAt.eq_zero (h : m.StopsAt program k)
    (hm : m.status ≠ .running ∨ program.size < m.pc) : k = 0 := by
  obtain ⟨-, -, hahead⟩ := counters_after h.running
  by_contra hne
  obtain ⟨hrunning, -, hfits⟩ := hahead (Nat.pos_of_ne_zero hne)
  rcases hm with hstopped | hpast
  · exact hstopped hrunning
  · omega

/-- A run of a machine that does not halt ends with the last step though it is never cancelled. -/
theorem StopsAt.returns_never (h : m.StopsAt program k)
    (hne : m.answer program k ≠ .ok .halted) {flag : Flag} (hflag : flag.NeverSet) :
    m.Returns program flag k (m.run program .never).1 (m.run program .never).2 := by
  rw [run_eq_conclude rfl rfl, runUntilHalt_of_stopsAt h]
  exact returns_of_stopsAt h hne (fun i _ => hflag i) .never

/-- A run of a machine that halts returns once the flag is set, and not before. -/
theorem StopsAt.exists_returns_iff_seen (h : m.StopsAt program k)
    (hhalted : m.answer program k = .ok .halted) (flag : Flag) :
    (∃ j result m', m.Returns program flag j result m') ↔ ∃ i, flag i = true := by
  constructor
  · rintro ⟨j, result, m', hreturns⟩
    exact ⟨j, hreturns.seen_of_halts h hhalted⟩
  · intro hset
    obtain ⟨n, hn⟩ := Flag.exists_setAt hset
    obtain ⟨j, -, hreturns⟩ := m.exists_returns_of_setAt program hn
    exact ⟨j, _, _, hreturns⟩

/-- **Every program stops.**  A run until the machine stops makes `k + 1` steps, where `k` is no
more than the number of whole instructions ahead, and zero for a machine that has stopped already or
is past the end.  A run whose flag is never set makes as many and then returns with the end of the
program or a fault, unless the machine halts or is halted.  In that one case it waits, and returns
when a look sees the flag set, which it then does. -/
theorem stops_within (m : Machine) (program : Program) :
    ∃ k, m.StopsAt program k ∧ m.runUntilHalt program = (m.after program k).step program ∧
      (m.status ≠ .running ∨ program.size < m.pc → k = 0) ∧
      k ≤ (program.size - m.pc) / 4 ∧
      ((∀ i, (m.after program i).status ≠ .halted) → ∀ flag : Flag, flag.NeverSet →
        ∃ result m', m.run program .never = (result, m') ∧ m.Returns program flag k result m' ∧
          ((∃ e, result = .faulted e) ∨
            result = .exited ⟨.terminated, m'.registers, m'.steps, m'.skipped⟩)) ∧
      ((∃ i, (m.after program i).status = .halted) →
        (m.run program .never).1 = .waiting ∧
        ∀ flag : Flag,
          (∀ j result m', m.Returns program flag j result m' → flag j = true) ∧
          ((∃ i, flag i = true) → ∃ j result m', m.Returns program flag j result m')) := by
  obtain ⟨k, hk, heq⟩ := m.exists_stopsAt program
  refine ⟨k, hk, heq, hk.eq_zero, hk.le, fun hnever flag hflag => ?_, fun hhalts => ?_⟩
  · have hne : m.answer program k ≠ .ok .halted := by
      rw [ne_eq, ← hk.exists_halted_iff]
      exact not_exists.2 hnever
    have hreturns := hk.returns_never hne hflag
    refine ⟨_, _, rfl, hreturns, ?_⟩
    -- no look has seen the flag set, so it is one of the other ends
    generalize (m.run program .never).1 = result, (m.run program .never).2 = m' at hreturns ⊢
    cases hreturns with
    | cancelled _ hset =>
      rw [hflag k] at hset
      cases hset
    | terminated => exact .inr rfl
    | faulted => exact .inl ⟨_, rfl⟩
  · have hhalted := hk.exists_halted_iff.1 hhalts
    refine ⟨?_, fun flag => ⟨?_, (hk.exists_returns_iff_seen hhalted flag).2⟩⟩
    · rw [run_eq_conclude rfl rfl, runUntilHalt_of_stopsAt hk, hhalted]
      rfl
    · intro j result m' hreturns
      exact hreturns.seen_of_halts hk hhalted

/-- A program that ends at once, one that halts at once, and one for a machine that has stopped. -/
theorem stops_within_one_step :
    (∃ k ≤ 1, ∃ result m', (powerOn { registers := 1 }).Returns #[0xFF, 0, 0, 0, 7]
      (fun _ => false) k result m') ∧
    (∀ flag j result m',
      (powerOn { registers := 1 }).Returns #[0x09, 0, 0, 0] flag j result m' → flag j = true) ∧
    ((powerOn { registers := 1 }).commit (.stop .halted)).StopsAt #[0, 0, 0, 0, 0, 0, 0, 0] 0 := by
  refine ⟨?_, ?_, ?_⟩
  · obtain ⟨k, -, -, -, hle, hreturns, -⟩ :=
      (powerOn { registers := 1 }).stops_within #[0xFF, 0, 0, 0, 7]
    have hnever (i : Nat) :
        ((powerOn { registers := 1 }).after #[0xFF, 0, 0, 0, 7] i).status ≠ .halted := by
      rcases Nat.eq_zero_or_pos i with rfl | hpos
      · decide
      · rw [after_eq_of_ne (k := 0) (by decide) hpos]
        decide
    obtain ⟨result, m', -, h, -⟩ := hreturns hnever _ fun _ => rfl
    exact ⟨k, hle, result, m', h⟩
  · obtain ⟨k, -, -, -, -, -, hwaits⟩ := (powerOn { registers := 1 }).stops_within #[0x09, 0, 0, 0]
    exact fun flag => ((hwaits ⟨1, rfl⟩).2 flag).1
  · obtain ⟨k, hk, -, hzero, -⟩ :=
      ((powerOn { registers := 1 }).commit (.stop .halted)).stops_within #[0, 0, 0, 0, 0, 0, 0, 0]
    rwa [hzero (.inl (by decide))] at hk

end Machine

end RegisterMachine
