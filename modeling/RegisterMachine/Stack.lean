import RegisterMachine.Error

/-!
# Bounded stacks

A stack has slots for a fixed number of words and grows upward from the lowest.  Its height is both
the number of words it holds and the position of the slot that the next word goes to.  A slot takes
up room from the first time it is used; what the slots above the height hold is never seen.

## Main definitions

* `Stack` and `Stack.empty`: a stack, and one that holds nothing;
* `Stack.toList`: the words held, the bottom one first;
* `Stack.push`, `Stack.pop` and `Stack.peek?`.

## Main statements

* `Stack.toList_put`, `Stack.toList_drop` and `Stack.peek?_eq_getLast?`: on the words held, the
  operations are those of a list that grows at its end.
-/

namespace RegisterMachine

/-- A row of slots of which the lowest `height` are in use. -/
@[ext]
structure Stack where
  /-- The number of words the stack can hold. -/
  capacity : Nat
  /-- The slots that have ever been used, the lowest first. -/
  slots : Array Word
  /-- The number of slots in use. -/
  height : Nat
  /-- The slots in use have been used. -/
  height_le : height ≤ slots.size
  /-- No more slots have been used than there are. -/
  size_le : slots.size ≤ capacity
  deriving DecidableEq, Repr

namespace Stack

/-- The stack for `capacity` words that holds nothing. -/
def empty (capacity : Nat) : Stack :=
  ⟨capacity, #[], 0, Nat.zero_le _, Nat.zero_le _⟩

/-- The words held, the bottom one first. -/
def toList (s : Stack) : List Word :=
  s.slots.toList.take s.height

/-- The stack holds nothing. -/
def isEmpty (s : Stack) : Bool :=
  s.height == 0

/-- The stack holds as many words as it can. -/
def isFull (s : Stack) : Bool :=
  s.height == s.capacity

/-- The word on top. -/
def peek? (s : Stack) : Option Word :=
  if s.height = 0 then none else s.slots[s.height - 1]?

/-- The stack with `v` on top; a full stack stays as it is. -/
def put (s : Stack) (v : Word) : Stack :=
  if hc : s.height < s.capacity then
    if hs : s.height < s.slots.size then
      { s with
        slots := s.slots.setIfInBounds s.height v
        height := s.height + 1
        height_le := by rw [Array.size_setIfInBounds]; exact hs
        size_le := by rw [Array.size_setIfInBounds]; exact s.size_le }
    else
      { s with
        slots := s.slots.push v
        height := s.height + 1
        height_le := by rw [Array.size_push]; exact Nat.succ_le_succ s.height_le
        size_le := by rw [Array.size_push]; omega }
  else
    s

/-- The stack without its top; an empty stack stays as it is. -/
def drop (s : Stack) : Stack :=
  { s with
    height := s.height - 1
    height_le := Nat.le_trans (Nat.sub_le _ _) s.height_le }

/-- Puts a word on top, unless the stack is full. -/
def push (s : Stack) (v : Word) : Except Error Stack :=
  if s.isFull then .error (.stackOverflow s.capacity) else .ok (s.put v)

/-- Takes the top off, unless the stack is empty. -/
def pop (s : Stack) : Except Error (Word × Stack) :=
  match s.peek? with
  | some v => .ok (v, s.drop)
  | none => .error .stackUnderflow

/-- The stack for as many words that holds nothing and has used no slot. -/
def clear (s : Stack) : Stack :=
  empty s.capacity

/-! ### Sizes -/

@[simp]
theorem capacity_put (s : Stack) (v : Word) : (s.put v).capacity = s.capacity := by
  unfold put
  split
  · split <;> rfl
  · rfl

@[simp]
theorem capacity_drop (s : Stack) : s.drop.capacity = s.capacity := rfl

@[simp]
theorem height_drop (s : Stack) : s.drop.height = s.height - 1 := rfl

theorem height_put {s : Stack} (h : s.height < s.capacity) (v : Word) :
    (s.put v).height = s.height + 1 := by
  unfold put
  rw [dif_pos h]
  split <;> rfl

theorem height_le_capacity (s : Stack) : s.height ≤ s.capacity :=
  Nat.le_trans s.height_le s.size_le

theorem isFull_eq_false_iff {s : Stack} : s.isFull = false ↔ s.height < s.capacity := by
  have := s.height_le_capacity
  unfold isFull
  simp only [beq_eq_false_iff_ne, ne_eq]
  omega

/-! ### The words held -/

@[simp]
theorem toList_empty (c : Nat) : (empty c).toList = [] := rfl

@[simp]
theorem length_toList (s : Stack) : s.toList.length = s.height := by
  have := s.height_le
  simp only [toList, List.length_take, Array.length_toList]
  omega

theorem toList_put {s : Stack} (h : s.height < s.capacity) (v : Word) :
    (s.put v).toList = s.toList ++ [v] := by
  have hle := s.height_le
  unfold put
  rw [dif_pos h]
  unfold toList
  split
  · rename_i hs
    rw [List.take_add_one]
    simp [List.take_set_of_le, hs]
  · have heq : s.slots.toList.length = s.height := by
      rw [Array.length_toList]
      omega
    show (s.slots.push v).toList.take (s.height + 1) = s.slots.toList.take s.height ++ [v]
    rw [Array.toList_push, List.take_of_length_le (by simp [heq]),
      List.take_of_length_le (by omega)]

theorem toList_drop (s : Stack) : s.drop.toList = s.toList.dropLast := by
  have := s.height_le
  simp only [toList, drop, List.dropLast_eq_take, List.length_take, Array.length_toList,
    List.take_take]
  congr 1
  omega

theorem peek?_eq_getLast? (s : Stack) : s.peek? = s.toList.getLast? := by
  have := s.height_le
  unfold peek?
  rw [List.getLast?_eq_getElem?, length_toList]
  unfold toList
  split
  · simp_all
  · rw [List.getElem?_take_of_lt (by omega)]
    simp

theorem peek?_eq_none_iff {s : Stack} : s.peek? = none ↔ s.height = 0 := by
  rw [peek?_eq_getLast?, List.getLast?_eq_none_iff, ← length_toList, List.length_eq_zero_iff]

end Stack

end RegisterMachine
