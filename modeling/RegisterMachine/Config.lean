import RegisterMachine.Error

/-!
# Configurations

The sizes of a machine's parts and what it does with opcodes it does not know.  Both are fixed for
the lifetime of a machine.

## Main definitions

* `OpcodePolicy` and `Config`: a configuration, by default the standard one;
* `Config.size` and `Config.setSize`: one size, by resource;
* `Config.validate`: the check made before a machine is built.

## Main statements

* `Config.validate_eq_ok_iff`: accepted are exactly the configurations whose sizes are all within
  their limits;
* `Config.validate_eq_error_iff`: an error names the first resource whose size is not.
-/

namespace RegisterMachine

/-- What the machine does with a word that is no opcode. -/
inductive OpcodePolicy where
  /-- Pass over it, and count it. -/
  | lenient
  /-- Fault. -/
  | strict
  deriving DecidableEq, Repr

/-- The sizes of a machine's parts, and its opcode policy. -/
structure Config where
  /-- Number of registers. -/
  registers : Nat := Resource.registers.standardSize
  /-- Words of memory. -/
  memory : Nat := Resource.memory.standardSize
  /-- Words the stack can hold. -/
  stack : Nat := Resource.stack.standardSize
  /-- Words of the largest image that is loaded. -/
  rom : Nat := Resource.rom.standardSize
  /-- What to do with unknown opcodes. -/
  policy : OpcodePolicy := .lenient
  deriving DecidableEq, Repr

namespace Config

instance : Inhabited Config := ⟨{}⟩

/-- The size of a resource. -/
def size (c : Config) : Resource → Nat
  | .registers => c.registers
  | .memory => c.memory
  | .stack => c.stack
  | .rom => c.rom

/-- The configuration with another size for one resource; nothing is checked yet. -/
def setSize (c : Config) (r : Resource) (n : Nat) : Config :=
  match r with
  | .registers => { c with registers := n }
  | .memory => { c with memory := n }
  | .stack => { c with stack := n }
  | .rom => { c with rom := n }

theorem size_setSize (c : Config) (r s : Resource) (n : Nat) :
    (c.setSize r n).size s = if s = r then n else c.size s := by
  cases r <;> cases s <;> rfl

@[simp]
theorem policy_setSize (c : Config) (r : Resource) (n : Nat) :
    (c.setSize r n).policy = c.policy := by
  cases r <;> rfl

theorem eq_of_size_eq {c c' : Config} (hsize : ∀ r, c.size r = c'.size r)
    (hpolicy : c.policy = c'.policy) : c = c' := by
  calc c = ⟨c.size .registers, c.size .memory, c.size .stack, c.size .rom, c.policy⟩ := rfl
    _ = c' := by
      rw [hsize, hsize, hsize, hsize, hpolicy]
      rfl

/-- Every size is within its limits. -/
def Valid (c : Config) : Prop :=
  ∀ r : Resource, r.Admits (c.size r)

/-- Refuses a configuration some size of which is zero or beyond its limit, and names the first
such resource. -/
def validate (c : Config) : Except Error Unit :=
  match Resource.all.find? fun r : Resource => ¬ r.Admits (c.size r) with
  | some r => .error (.invalidConfig r)
  | none => .ok ()

theorem validate_eq_ok_iff {c : Config} : c.validate = .ok () ↔ c.Valid := by
  unfold validate
  split
  · rename_i r hr
    have hbad := List.find?_some hr
    simp only [decide_eq_true_eq] at hbad
    refine iff_of_false (fun h => by cases h) (fun h => hbad (h r))
  · rename_i hnone
    have hgood := List.find?_eq_none.1 hnone
    simp only [decide_eq_true_eq, Classical.not_not] at hgood
    exact iff_of_true rfl (fun r => hgood r r.mem_all)

theorem validate_eq_error_iff {c : Config} {e : Error} :
    c.validate = .error e ↔
      ∃ (r : Resource) (before after : List Resource),
        Resource.all = before ++ r :: after ∧ e = .invalidConfig r ∧
          ¬ r.Admits (c.size r) ∧ ∀ s ∈ before, s.Admits (c.size s) := by
  have find (r : Resource) :
      (Resource.all.find? fun r : Resource => ¬ r.Admits (c.size r)) = some r ↔
        ¬ r.Admits (c.size r) ∧ ∃ before after, Resource.all = before ++ r :: after ∧
          ∀ s ∈ before, s.Admits (c.size s) := by
    simp [List.find?_eq_some_iff_append]
  unfold validate
  split
  · rename_i r hr
    obtain ⟨hbad, before, after, hall, hbefore⟩ := (find r).1 hr
    constructor
    · rintro ⟨⟩
      exact ⟨r, before, after, hall, rfl, hbad, hbefore⟩
    · rintro ⟨s, before', after', hall', rfl, hbad', hbefore'⟩
      have := (find s).2 ⟨hbad', before', after', hall', hbefore'⟩
      rw [hr] at this
      cases this
      rfl
  · rename_i hnone
    constructor
    · intro h
      cases h
    · rintro ⟨s, before, after, hall, -, hbad, hbefore⟩
      have := (find s).2 ⟨hbad, before, after, hall, hbefore⟩
      rw [hnone] at this
      cases this

end Config

end RegisterMachine
