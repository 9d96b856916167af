import RegisterMachine.Proofs.History

/-!
# What a reset forgets

A reset puts a machine back to where it was switched on, whatever it has been through: its cells and
slots hold zero again, those of the stack above its height included, where words stay that were
popped.  All that is done with the machine from then on is answered as by one that was just built
with the same configuration, so nothing of what came before the reset can be found out.

## Main definitions

* `Stack.slot?` : the content of a slot, in use or not.

## Main statements

* `Machine.calls_append` : the answers to calls, of which the later ones find the machine that the
  earlier ones have left;
* `Machine.reset_forgets` : behind a reset, a machine behaves as one that was just built.
-/

namespace RegisterMachine

namespace Stack

/-- The content of a slot, if there is this slot; one that was never used holds zero. -/
def slot? (s : Stack) (i : Nat) : Option Word :=
  if i < s.capacity then some (s.slots[i]?.getD 0) else none

theorem slot?_empty (capacity i : Nat) :
    (empty capacity).slot? i = if i < capacity then some 0 else none := by
  simp [slot?, empty]

end Stack

namespace Machine

variable {config : Config} {m fresh : Machine}

theorem calls_append (m : Machine) (cs ds : List Call) :
    m.calls (cs ++ ds) =
      ((m.calls cs).1 ++ ((m.calls cs).2.calls ds).1, ((m.calls cs).2.calls ds).2) := by
  induction cs generalizing m with
  | nil => rfl
  | cons c cs ih => simp only [List.cons_append, calls, ih]

/-- A machine that was reset is the one that was switched on, after all calls. -/
theorem Built.reset_calls (hm : Built config m) (cs : List Call) :
    (m.calls cs).2.reset = powerOn config := by
  obtain rfl := hm.eq_powerOn
  exact ((Invariant.powerOn config).calls cs).reset_eq_powerOn

/-- **A reset is like switching on.**  Whatever calls were made on a machine, whichever programs
they were made on, whether or not instructions faulted, runs were cancelled or the machine was
stopped, a reset leaves the machine that was just built with the same configuration, with zero in
all slots of its stack.  So the answers to further calls, and the machine behind each of them, are
those of a machine that was just built. -/
theorem reset_forgets (hm : Built config m) (hfresh : Built config fresh) (cs ds : List Call) :
    (m.calls cs).2.reset = fresh ∧
      (∀ i, (m.calls cs).2.reset.stack.slot? i = if i < config.stack then some 0 else none) ∧
      m.calls (cs ++ .reset :: ds) =
        ((m.calls cs).1 ++ .done :: (fresh.calls ds).1, (fresh.calls ds).2) := by
  have hreset : (m.calls cs).2.reset = fresh :=
    (hm.reset_calls cs).trans hfresh.eq_powerOn.symm
  refine ⟨hreset, fun i => ?_, ?_⟩
  · rw [hm.reset_calls cs]
    exact Stack.slot?_empty config.stack i
  · rw [calls_append, calls, call, hreset]

/-- A word that was popped stays in its slot until the machine is reset; a pop then finds
nothing. -/
theorem reset_forgets_popped :
    let m := powerOn { registers := 1 }
    let program := #[0x0A, 7, 0, 0, 0x0B, 0, 0, 0]
    (m.calls [.step program, .step program]).2.stack.slot? 0 = some 7 ∧
      (m.calls [.step program, .step program]).2.reset.stack.slot? 0 = some 0 ∧
      (m.calls ([.step program, .step program] ++ [.reset, .step #[0x0B, 0, 0, 0]])).1 =
        [.status (.ok .running), .status (.ok .running), .done,
          .status (.error .stackUnderflow)] := by
  have hbuilt : Built { registers := 1 } (powerOn { registers := 1 }) := .ofConfig rfl
  obtain ⟨-, hslots, hcalls⟩ := reset_forgets hbuilt hbuilt
    [.step #[0x0A, 7, 0, 0, 0x0B, 0, 0, 0], .step #[0x0A, 7, 0, 0, 0x0B, 0, 0, 0]]
    [.step #[0x0B, 0, 0, 0]]
  exact ⟨rfl, hslots 0, congrArg Prod.fst hcalls⟩

end Machine

end RegisterMachine
