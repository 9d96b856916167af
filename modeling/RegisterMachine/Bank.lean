import RegisterMachine.Word

/-!
# Banks of cells

Registers and memory are banks: a fixed number of cells, each holding a word, and each numbered by
a word.  Words are signed, so most of them number no cell.

## Main definitions

* `Bank` and `Bank.zeros`: a bank, and one that holds zero everywhere;
* `Bank.index?`: the cell that a word numbers;
* `Bank.get?` and `Bank.set`: reading and writing by number.

## Main statements

* `Bank.get?_set_self` and `Bank.get?_set_of_ne`: a write is seen at the number it went to, and
  nowhere else.
-/

namespace RegisterMachine

/-- A row of cells, numbered from zero. -/
structure Bank where
  /-- The content of the cells. -/
  cells : Array Word
  deriving DecidableEq, Repr

namespace Bank

/-- The bank of `n` cells that all hold zero. -/
def zeros (n : Nat) : Bank :=
  ⟨Array.replicate n 0⟩

/-- The number of cells. -/
def size (b : Bank) : Nat :=
  b.cells.size

/-- The cell numbered `w`; negative words and words past the last cell number none. -/
def index? (b : Bank) (w : Word) : Option Nat :=
  if 0 ≤ w.toInt ∧ w.toInt < b.size then some w.toInt.toNat else none

/-- The content of the cell numbered `w`, if there is one. -/
def get? (b : Bank) (w : Word) : Option Word :=
  (b.index? w).bind fun i => b.cells[i]?

/-- The bank with `v` in the cell numbered `w`; a number without a cell changes nothing. -/
def set (b : Bank) (w v : Word) : Bank :=
  match b.index? w with
  | some i => ⟨b.cells.setIfInBounds i v⟩
  | none => b

/-- The bank with zero in every cell. -/
def clear (b : Bank) : Bank :=
  zeros b.size

/-- The cells that hold a word other than zero, with their numbers, in ascending order. -/
def nonzero (b : Bank) : Array (Nat × Word) :=
  b.size.fold
    (fun i _ found =>
      match b.cells[i]? with
      | some v => if v = 0 then found else found.push (i, v)
      | none => found)
    #[]

@[simp]
theorem size_zeros (n : Nat) : (zeros n).size = n := by
  simp [zeros, size]

@[simp]
theorem size_set (b : Bank) (w v : Word) : (b.set w v).size = b.size := by
  unfold set
  split <;> simp [size]

@[simp]
theorem size_clear (b : Bank) : b.clear.size = b.size := by
  simp [clear]

theorem index?_eq_some_iff {b : Bank} {w : Word} {i : Nat} :
    b.index? w = some i ↔ w.toInt = i ∧ i < b.size := by
  unfold index?
  split
  · simp only [Option.some.injEq]
    omega
  · simp only [reduceCtorEq, false_iff]
    omega

theorem index?_eq_none_iff {b : Bank} {w : Word} :
    b.index? w = none ↔ w.toInt < 0 ∨ b.size ≤ w.toInt := by
  unfold index?
  split <;> simp <;> omega

/-- A word numbers the cell whose position is its value. -/
theorem get?_eq_some_iff {b : Bank} {w v : Word} :
    b.get? w = some v ↔ 0 ≤ w.toInt ∧ b.cells[w.toInt.toNat]? = some v := by
  unfold get? index? size
  split
  · rename_i h
    simp [h]
  · rename_i h
    simp only [Option.bind_none, reduceCtorEq, false_iff, not_and]
    intro h₀
    rw [Array.getElem?_eq_none (by omega)]
    simp

theorem get?_eq_none_iff {b : Bank} {w : Word} :
    b.get? w = none ↔ w.toInt < 0 ∨ b.size ≤ w.toInt := by
  simp only [Option.eq_none_iff_forall_ne_some, ne_eq, get?_eq_some_iff, not_and]
  rw [← index?_eq_none_iff, index?_eq_none_iff]
  constructor
  · intro h
    by_cases h₀ : 0 ≤ w.toInt
    · by_cases h₁ : w.toInt.toNat < b.cells.size
      · exact absurd (Array.getElem?_eq_getElem h₁) (h _ h₀)
      · unfold size
        omega
    · omega
  · intro h v h₀
    rw [Array.getElem?_eq_none (by unfold size at h; omega)]
    simp

theorem get?_set_self {b : Bank} {w u : Word} (h : b.get? w = some u) (v : Word) :
    (b.set w v).get? w = some v := by
  rw [get?_eq_some_iff] at h ⊢
  obtain ⟨h₀, h⟩ := h
  obtain ⟨hw, -⟩ := Array.getElem?_eq_some_iff.1 h
  have hi : b.index? w = some w.toInt.toNat :=
    index?_eq_some_iff.2 ⟨by omega, hw⟩
  rw [set, hi]
  exact ⟨h₀, by rw [Array.getElem?_setIfInBounds_self, if_pos hw]⟩

theorem get?_set_of_ne {b : Bank} {w x : Word} (h : x ≠ w) (v : Word) :
    (b.set w v).get? x = b.get? x := by
  have hne : x.toInt ≠ w.toInt := fun hxw => h (Int32.toInt_inj.1 hxw)
  ext u
  rw [get?_eq_some_iff, get?_eq_some_iff]
  refine and_congr_right fun hx => ?_
  unfold set
  split
  · rename_i i hi
    rw [index?_eq_some_iff] at hi
    rw [Array.getElem?_setIfInBounds_ne (by omega)]
  · rfl

end Bank

end RegisterMachine
