import Mathlib.Algebra.Group.Nat.Defs
import RegisterMachine.Instruction

/-!
# Programs as sequences of instructions

A machine that starts at the beginning of a program only ever comes to positions divisible by four.
For such a machine the program is a sequence of whole instructions, with up to three words behind
them that are none.  A program can be taken apart into the two and put together again, and this is
how programs are rewritten here: instruction by instruction, with the words behind them kept.

## Main definitions

* `Program.instructions` and `Program.remainder` : the whole instructions of a program, and the
  words behind them;
* `Program.ofInstructions` : the program made of some instructions and further words;
* `Program.mapInstructions` : a program with each whole instruction replaced;
* `Program.overwrite` : a program with an instruction written over it at some position.

## Main statements

* `Program.ofInstructions_instructions` : nothing of a program is lost when it is taken apart;
* `Program.fetch?_ofInstructions` and `Program.fetch?_mapInstructions` : what is fetched from
  programs that were put together;
* `Program.filterMap_fetch?` : fetching at all positions divisible by four takes a program apart;
* `Program.fetch_exact` : what is fetched at each position of 64 bits, divisible by four or not;
* `Program.fetch?_overwrite_self` and `Program.fetch?_overwrite_of_le` : what is fetched from a
  program with an instruction written over it.
-/

namespace RegisterMachine

/-! ### Pieces of one length -/

section Pieces

variable {α β : Type} {f : α → List β} {n : Nat}

theorem length_flatMap_of_length_eq (hf : ∀ a, (f a).length = n) (l : List α) :
    (l.flatMap f).length = n * l.length := by
  induction l with
  | nil => rfl
  | cons a l ih =>
    rw [List.flatMap_cons, List.length_append, List.length_cons, ih, hf, Nat.mul_succ]
    omega

/-- Element `r` of piece `j` stands `r` places behind all elements of the pieces before. -/
theorem getElem?_flatMap_of_length_eq (hf : ∀ a, (f a).length = n) (l : List α) (j : Nat) {r : Nat}
    (hr : r < n) : (l.flatMap f)[n * j + r]? = l[j]?.bind fun a => (f a)[r]? := by
  induction l generalizing j with
  | nil => rfl
  | cons a l ih =>
    rw [List.flatMap_cons]
    cases j with
    | zero =>
      rw [List.getElem?_append_left (by rw [hf]; omega), Nat.mul_zero, Nat.zero_add]
      rfl
    | succ j =>
      have hbehind : n * (j + 1) + r - (f a).length = n * j + r := by
        rw [hf, Nat.mul_succ]
        omega
      have hle : (f a).length ≤ n * (j + 1) + r := by
        rw [hf, Nat.mul_succ]
        omega
      rw [List.getElem?_append_right hle, hbehind, ih, List.getElem?_cons_succ]

end Pieces

theorem Instruction.length_toList (i : Instruction) : i.toList.length = 4 := rfl

namespace Program

variable {program : Program} {is : List Instruction} {behind : List Word} {j pc pc' : Nat}
  {i : Instruction}

theorem isSome_fetch? (program : Program) (j : Fin (program.size / 4)) :
    (program.fetch? (4 * j)).isSome := by
  have hj := j.isLt
  have hfits : 4 * (j : Nat) + 4 ≤ program.size := by omega
  rw [fetch?, dif_pos hfits, Option.isSome_some]

/-- The whole instructions of a program, in their order. -/
def instructions (program : Program) : List Instruction :=
  List.ofFn fun j : Fin (program.size / 4) => (program.fetch? (4 * j)).get (program.isSome_fetch? j)

/-- The words behind the last whole instruction of a program. -/
def remainder (program : Program) : List Word :=
  program.toList.drop (4 * (program.size / 4))

/-- The program that consists of these instructions and, behind them, of these words. -/
def ofInstructions (is : List Instruction) (behind : List Word) : Program :=
  (is.flatMap Instruction.toList ++ behind).toArray

/-- The program with `f i` in the place of each whole instruction `i`. -/
def mapInstructions (f : Instruction → Instruction) (program : Program) : Program :=
  ofInstructions (program.instructions.map f) program.remainder

/-- The program with the words of an instruction in the place of its own, from position `pc` on. -/
def overwrite (program : Program) (pc : Nat) (i : Instruction) : Program :=
  program.mapIdx fun j w => if pc ≤ j then i.toList[j - pc]?.getD w else w

/-! ### Taking a program apart -/

@[simp]
theorem length_instructions (program : Program) :
    program.instructions.length = program.size / 4 :=
  List.length_ofFn

@[simp]
theorem length_remainder (program : Program) : program.remainder.length = program.size % 4 := by
  unfold remainder
  rw [List.length_drop, Array.length_toList]
  omega

theorem getElem?_instructions (program : Program) (j : Nat) :
    program.instructions[j]? = program.fetch? (4 * j) := by
  unfold instructions
  rw [List.getElem?_ofFn]
  split
  · exact Option.some_get _
  · symm
    rw [fetch?_eq_none_iff]
    omega

theorem fetch?_eq_getElem?_instructions (hpc : pc % 4 = 0) :
    program.fetch? pc = program.instructions[pc / 4]? := by
  rw [getElem?_instructions, Nat.mul_div_cancel' (Nat.dvd_of_mod_eq_zero hpc)]

/-! ### Putting a program together -/

@[simp]
theorem size_ofInstructions (is : List Instruction) (behind : List Word) :
    (ofInstructions is behind).size = 4 * is.length + behind.length := by
  rw [ofInstructions, List.size_toArray, List.length_append,
    length_flatMap_of_length_eq Instruction.length_toList]

theorem getElem?_ofInstructions {i : Instruction} (hi : is[j]? = some i) {r : Nat} (hr : r < 4) :
    (ofInstructions is behind)[4 * j + r]? = i.toList[r]? := by
  obtain ⟨hj, -⟩ := List.getElem?_eq_some_iff.1 hi
  have hlt : 4 * j + r < (is.flatMap Instruction.toList).length := by
    rw [length_flatMap_of_length_eq Instruction.length_toList]
    omega
  rw [ofInstructions, List.getElem?_toArray, List.getElem?_append_left hlt,
    getElem?_flatMap_of_length_eq Instruction.length_toList is j hr, hi]
  rfl

/-- **From a program that was put together its instructions are fetched**, in their order. -/
theorem fetch?_ofInstructions (is : List Instruction) (hbehind : behind.length < 4) (j : Nat) :
    (ofInstructions is behind).fetch? (4 * j) = is[j]? := by
  cases hi : is[j]? with
  | none =>
    have hle := List.getElem?_eq_none_iff.1 hi
    rw [fetch?_eq_none_iff, size_ofInstructions]
    omega
  | some i =>
    obtain ⟨hj, -⟩ := List.getElem?_eq_some_iff.1 hi
    rw [fetch?_eq_some_iff, size_ofInstructions]
    exact ⟨by omega, getElem?_ofInstructions hi (r := 0) (by decide),
      getElem?_ofInstructions hi (by decide), getElem?_ofInstructions hi (by decide),
      getElem?_ofInstructions hi (by decide)⟩

/-- **Nothing is lost of a program** that is taken apart into its instructions and the words behind
them. -/
theorem ofInstructions_instructions (program : Program) :
    ofInstructions program.instructions program.remainder = program := by
  apply Array.ext_getElem?
  intro k
  by_cases hk : k < 4 * (program.size / 4)
  · -- word number `r` of instruction number `j`
    obtain ⟨j, r, hr, rfl⟩ : ∃ j r, r < 4 ∧ k = 4 * j + r :=
      ⟨k / 4, k % 4, Nat.mod_lt k (by decide), (Nat.div_add_mod k 4).symm⟩
    have hj : j < program.instructions.length := by
      rw [length_instructions]
      omega
    have hi := List.getElem?_eq_getElem hj
    rw [getElem?_ofInstructions hi hr]
    rw [getElem?_instructions, fetch?_eq_some_iff] at hi
    obtain ⟨-, h₀, h₁, h₂, h₃⟩ := hi
    match r, hr with
    | 0, _ => exact h₀.symm
    | 1, _ => exact h₁.symm
    | 2, _ => exact h₂.symm
    | 3, _ => exact h₃.symm
  · -- a word behind the instructions
    have hlength : (program.instructions.flatMap Instruction.toList).length =
        4 * (program.size / 4) := by
      rw [length_flatMap_of_length_eq Instruction.length_toList, length_instructions]
    rw [ofInstructions, List.getElem?_toArray, List.getElem?_append_right (by omega), hlength,
      remainder, List.getElem?_drop, Nat.add_sub_cancel' (by omega), Array.getElem?_toList]

/-! ### Fetching everywhere -/

/-- The whole instructions of a program are its words up to the last of them. -/
theorem flatMap_instructions (program : Program) :
    program.instructions.flatMap Instruction.toList =
      program.toList.take (4 * (program.size / 4)) := by
  have hlength : (program.instructions.flatMap Instruction.toList).length =
      4 * (program.size / 4) := by
    rw [length_flatMap_of_length_eq Instruction.length_toList, length_instructions]
  have hwords := congrArg Array.toList program.ofInstructions_instructions
  rw [ofInstructions] at hwords
  rw [← hwords, ← hlength, List.take_left]

/-- **Fetching at all positions divisible by four** gives the whole instructions in their order,
however far behind the end of the program it goes on. -/
theorem filterMap_fetch? {n : Nat} (hn : program.size / 4 ≤ n) :
    (List.range n).filterMap (fun j => program.fetch? (4 * j)) = program.instructions := by
  -- the first so many positions give the first so many instructions
  have htake (n : Nat) : (List.range n).filterMap (fun j => program.fetch? (4 * j)) =
      program.instructions.take n := by
    induction n with
    | zero => simp
    | succ n ih =>
      rw [List.range_succ, List.filterMap_append, ih, List.take_add_one, getElem?_instructions]
      cases hi : program.fetch? (4 * n) <;> simp [hi]
  rw [htake, List.take_of_length_le]
  rwa [length_instructions]

/-- **A fetch is exact at every position of 64 bits.**  An instruction is fetched exactly where its
last word is one of the program, with a sum that does not wrap; it consists of the four words from
there on; so close below `2 ^ 64` that the sum would wrap none is fetched, although the beginning of
the program would follow; and what is fetched at all positions divisible by four is the program up
to its last whole instruction. -/
theorem fetch_exact (hsize : program.size < 2 ^ 61) (pc : UInt64) :
    ((program.fetch? pc.toNat).isSome ↔ pc.toNat + 4 ≤ program.size) ∧
      (∀ i, program.fetch? pc.toNat = some i →
        program[pc.toNat]? = some i.opcode ∧ program[pc.toNat + 1]? = some i.arg₀ ∧
        program[pc.toNat + 2]? = some i.arg₁ ∧ program[pc.toNat + 3]? = some i.arg₂) ∧
      (2 ^ 64 ≤ pc.toNat + 4 → program.fetch? pc.toNat = none) ∧
      ((List.range (2 ^ 62)).filterMap fun j => program.fetch? (4 * j)).flatMap Instruction.toList =
        program.toList.take (4 * (program.size / 4)) := by
  refine ⟨?_, fun i hi => (fetch?_eq_some_iff.1 hi).2, fun hwraps => ?_, ?_⟩
  · rw [Option.isSome_iff_ne_none, ne_eq, fetch?_eq_none_iff, Nat.not_lt]
  · rw [fetch?_eq_none_iff]
    omega
  · rw [filterMap_fetch? (by omega), flatMap_instructions]

/-- Six words, at a position that is not divisible by four and at the last one of 64 bits. -/
theorem fetch_exact_at_last_position :
    (fetch? #[1, 2, 3, 4, 0xFF, 0] (UInt64.toNat 2)).isSome ∧
      fetch? #[1, 2, 3, 4, 0xFF, 0] (UInt64.toNat 0xFFFFFFFFFFFFFFFF) = none := by
  have hsize : Array.size (#[1, 2, 3, 4, 0xFF, 0] : Program) < 2 ^ 61 := by decide
  obtain ⟨hfits, -⟩ := fetch_exact hsize 2
  obtain ⟨-, -, hwraps, -⟩ := fetch_exact hsize 0xFFFFFFFFFFFFFFFF
  exact ⟨hfits.2 (by decide), hwraps (by decide)⟩

/-! ### Replacing each instruction -/

@[simp]
theorem size_mapInstructions (f : Instruction → Instruction) (program : Program) :
    (program.mapInstructions f).size = program.size := by
  rw [mapInstructions, size_ofInstructions, List.length_map, length_instructions, length_remainder,
    Nat.div_add_mod]

/-- **What is fetched is the replaced instruction**, at every position divisible by four. -/
theorem fetch?_mapInstructions (f : Instruction → Instruction) (hpc : pc % 4 = 0) :
    (program.mapInstructions f).fetch? pc = (program.fetch? pc).map f := by
  have hbehind : program.remainder.length < 4 := by
    rw [length_remainder]
    omega
  have hfetch := fetch?_ofInstructions (program.instructions.map f) hbehind (pc / 4)
  rw [Nat.mul_div_cancel' (Nat.dvd_of_mod_eq_zero hpc), List.getElem?_map,
    ← fetch?_eq_getElem?_instructions hpc] at hfetch
  exact hfetch

/-! ### Writing over one instruction -/

@[simp]
theorem size_overwrite (program : Program) (pc : Nat) (i : Instruction) :
    (program.overwrite pc i).size = program.size :=
  Array.size_mapIdx

theorem getElem?_overwrite_of_lt {r : Nat} {w : Word} (hfits : pc + 4 ≤ program.size)
    (hw : i.toList[r]? = some w) : (program.overwrite pc i)[pc + r]? = some w := by
  obtain ⟨hr, -⟩ := List.getElem?_eq_some_iff.1 hw
  have hlt : pc + r < program.size := by
    simp only [Instruction.toList, List.length_cons, List.length_nil] at hr
    omega
  rw [overwrite, Array.getElem?_mapIdx, Array.getElem?_eq_getElem hlt, Option.map_some,
    if_pos (Nat.le_add_right pc r), Nat.add_sub_cancel_left, hw, Option.getD_some]

theorem getElem?_overwrite_of_le {j : Nat} (hj : j < pc ∨ pc + 4 ≤ j) :
    (program.overwrite pc i)[j]? = program[j]? := by
  rw [overwrite, Array.getElem?_mapIdx]
  rcases hj with hlt | hle
  · simp only [if_neg (Nat.not_le.2 hlt), Option.map_id']
  · have hnone : i.toList[j - pc]? = none := by
      rw [List.getElem?_eq_none_iff]
      simp only [Instruction.toList, List.length_cons, List.length_nil]
      omega
    simp only [hnone, Option.getD_none, ite_self, Option.map_id']

/-- **The instruction is fetched where it was written.** -/
theorem fetch?_overwrite_self (hfits : pc + 4 ≤ program.size) :
    (program.overwrite pc i).fetch? pc = some i := by
  rw [fetch?_eq_some_iff, size_overwrite]
  exact ⟨hfits, getElem?_overwrite_of_lt (r := 0) hfits rfl, getElem?_overwrite_of_lt hfits rfl,
    getElem?_overwrite_of_lt hfits rfl, getElem?_overwrite_of_lt hfits rfl⟩

/-- **Elsewhere nothing changes.** -/
theorem fetch?_overwrite_of_le (h : pc' + 4 ≤ pc ∨ pc + 4 ≤ pc') :
    (program.overwrite pc i).fetch? pc' = program.fetch? pc' := by
  ext i'
  rw [fetch?_eq_some_iff, fetch?_eq_some_iff, size_overwrite,
    getElem?_overwrite_of_le (by omega), getElem?_overwrite_of_le (by omega),
    getElem?_overwrite_of_le (by omega), getElem?_overwrite_of_le (by omega)]

end Program

end RegisterMachine
