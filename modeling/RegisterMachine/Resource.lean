/-!
# Sized parts of a machine

A machine is made of parts whose sizes are chosen before it is switched on: the registers, the
memory, the stack, and the room for a program image.

## Main definitions

* `Resource`: the four sized parts;
* `Resource.standardSize` and `Resource.limit`: the usual and the largest size of each;
* `Resource.requirement`: the rule on a size, in words.
-/

namespace RegisterMachine

/-- A part of the machine whose size is configured. -/
inductive Resource where
  | registers
  | memory
  | stack
  | rom
  deriving DecidableEq, Repr

namespace Resource

/-- All resources, in the order in which their sizes are checked. -/
def all : List Resource :=
  [registers, memory, stack, rom]

theorem mem_all (r : Resource) : r ∈ all := by
  cases r <;> decide

/-- The size a resource has unless another one is asked for: a count of registers, or of words. -/
def standardSize : Resource → Nat
  | registers => 4
  | memory => 2048
  | stack => 512
  | rom => 2048

/-- The largest size a resource may have. -/
def limit : Resource → Nat
  | registers => 256
  | memory => 1 <<< 24
  | stack => 1 <<< 20
  | rom => 1 <<< 24

/-- A resource can be built with `size` cells. -/
def Admits (r : Resource) (size : Nat) : Prop :=
  1 ≤ size ∧ size ≤ r.limit

instance (r : Resource) (size : Nat) : Decidable (r.Admits size) :=
  inferInstanceAs (Decidable (_ ∧ _))

theorem admits_standardSize (r : Resource) : r.Admits r.standardSize := by
  cases r <;> decide

/-- What is measured when the size of a resource is stated. -/
def measure : Resource → String
  | registers => "register count"
  | memory => "memory size"
  | stack => "stack size"
  | rom => "rom size"

/-- The unit of the size of a resource; registers are simply counted. -/
def unit : Resource → String
  | registers => ""
  | _ => " words"

/-- The rule that the size of a resource has to obey, in words. -/
def requirement (r : Resource) : String :=
  r.measure ++ " must be between 1 and " ++ toString r.limit ++ r.unit

end Resource

end RegisterMachine
