import RegisterMachine.Stack

/-!
# Stacks as bounded lists

A stack keeps its words in slots that it uses again and again: a pop leaves the word in its slot,
and a later push overwrites it there.  Nothing of this can be seen.  Whatever is done with a stack,
in whatever order, and whether or not it fails, the results are those of a list that grows and
shrinks at its end and never gets longer than the stack has slots.

## Main definitions

* `Stack.Action`, `Stack.Result` and `Stack.performAll` : what can be done with a stack, and what
  this gives back;
* `BoundedList` and `BoundedList.performAll` : a list that obeys a bound, and the same actions on
  it;
* `Stack.Refines` : a stack that holds the words of a bounded list;
* `Stack.pushed` and `Stack.popped` : the words that went onto a stack, and those that came back.

## Main statements

* `Stack.Refines.perform` and `Stack.Refines.performAll` : actions keep a stack and a list together,
  and have the same results on both;
* `Stack.perm_performAll` : what was pushed was popped or is still held;
* `Stack.refines_boundedList` : every stack behaves as a bounded list.
-/

namespace RegisterMachine

/-- Something that can be done with a stack. -/
inductive Stack.Action where
  /-- Puts a word on top. -/
  | push (value : Word)
  /-- Takes the top off. -/
  | pop
  /-- Looks at the top. -/
  | peek
  /-- Asks for the number of words held. -/
  | length
  /-- Asks whether there is none. -/
  | isEmpty
  /-- Asks for the number of words that there is room for. -/
  | capacity
  /-- Asks for all words held, the bottom one first. -/
  | words
  deriving DecidableEq, Repr

/-- What an action on a stack gives back. -/
inductive Stack.Result where
  /-- Nothing: a word was pushed. -/
  | done
  /-- The word that was popped. -/
  | popped (value : Word)
  /-- The word on top, if there is one. -/
  | top (value? : Option Word)
  /-- A number of words. -/
  | count (n : Nat)
  /-- The answer to a question. -/
  | answer (yes : Bool)
  /-- All words held. -/
  | words (held : List Word)
  /-- The action failed. -/
  | failed (error : Error)
  deriving DecidableEq, Repr

/-- A list of at most `bound` words. -/
structure BoundedList (bound : Nat) where
  /-- The words. -/
  words : List Word
  /-- They obey the bound. -/
  length_le : words.length ≤ bound

namespace Stack

/-- The result of an action, and the stack after it; one that fails leaves the stack as it is. -/
def perform (s : Stack) : Action → Result × Stack
  | .push value =>
    match s.push value with
    | .ok s' => (.done, s')
    | .error e => (.failed e, s)
  | .pop =>
    match s.pop with
    | .ok (value, s') => (.popped value, s')
    | .error e => (.failed e, s)
  | .peek => (.top s.peek?, s)
  | .length => (.count s.height, s)
  | .isEmpty => (.answer s.isEmpty, s)
  | .capacity => (.count s.capacity, s)
  | .words => (.words s.toList, s)

/-- The results of actions one after the other, and the stack after the last of them. -/
def performAll (s : Stack) : List Action → List Result × Stack
  | [] => ([], s)
  | a :: actions =>
    ((s.perform a).1 :: ((s.perform a).2.performAll actions).1,
      ((s.perform a).2.performAll actions).2)

end Stack

namespace BoundedList

variable {bound : Nat}

/-- The list without words. -/
def empty (bound : Nat) : BoundedList bound :=
  ⟨[], Nat.zero_le bound⟩

/-- The list with one more word at its end. -/
def append (l : BoundedList bound) (h : l.words.length < bound) (value : Word) :
    BoundedList bound :=
  ⟨l.words ++ [value], by rw [List.length_append]; exact h⟩

/-- The list without its last word. -/
def dropLast (l : BoundedList bound) : BoundedList bound :=
  ⟨l.words.dropLast, Nat.le_trans (List.dropLast_sublist _).length_le l.length_le⟩

/-- The result of an action, and the list after it. -/
def perform (l : BoundedList bound) : Stack.Action → Stack.Result × BoundedList bound
  | .push value =>
    if h : l.words.length < bound then (.done, l.append h value)
    else (.failed (.stackOverflow bound), l)
  | .pop =>
    match l.words.getLast? with
    | some value => (.popped value, l.dropLast)
    | none => (.failed .stackUnderflow, l)
  | .peek => (.top l.words.getLast?, l)
  | .length => (.count l.words.length, l)
  | .isEmpty => (.answer l.words.isEmpty, l)
  | .capacity => (.count bound, l)
  | .words => (.words l.words, l)

/-- The results of actions one after the other, and the list after the last of them. -/
def performAll (l : BoundedList bound) :
    List Stack.Action → List Stack.Result × BoundedList bound
  | [] => ([], l)
  | a :: actions =>
    ((l.perform a).1 :: ((l.perform a).2.performAll actions).1,
      ((l.perform a).2.performAll actions).2)

variable {l : BoundedList bound} {v : Word}

theorem perform_push_of_lt (h : l.words.length < bound) :
    l.perform (.push v) = (.done, l.append h v) :=
  dif_pos h

theorem perform_push_of_not_lt (h : ¬ l.words.length < bound) :
    l.perform (.push v) = (.failed (.stackOverflow bound), l) :=
  dif_neg h

theorem perform_pop_of_eq_some (h : l.words.getLast? = some v) :
    l.perform .pop = (.popped v, l.dropLast) := by
  simp only [perform, h]

theorem perform_pop_of_eq_none (h : l.words.getLast? = none) :
    l.perform .pop = (.failed .stackUnderflow, l) := by
  simp only [perform, h]

end BoundedList

namespace Stack

/-- The stack has room for as many words as the list may have, and holds those that it has. -/
structure Refines {bound : Nat} (s : Stack) (l : BoundedList bound) : Prop where
  /-- The room of the stack is the bound of the list. -/
  capacity_eq : s.capacity = bound
  /-- The words are the same. -/
  toList_eq : s.toList = l.words

/-- The word that went onto a stack by an action with this result. -/
def Action.pushed : Action → Result → List Word
  | .push value, .done => [value]
  | _, _ => []

/-- The word that came back with a result. -/
def Result.taken : Result → List Word
  | .popped value => [value]
  | _ => []

/-- The words that went onto a stack by actions with these results. -/
def pushed (actions : List Action) (results : List Result) : List Word :=
  (List.zipWith Action.pushed actions results).flatten

/-- The words that came back with these results. -/
def popped (results : List Result) : List Word :=
  results.flatMap Result.taken

variable {s s' : Stack} {v : Word} {e : Error} {bound : Nat} {l : BoundedList bound}

/-! ### Pushes and pops -/

theorem push_eq_ok_iff : s.push v = .ok s' ↔ s.height < s.capacity ∧ s' = s.put v := by
  unfold push
  rw [← isFull_eq_false_iff]
  split
  · rename_i hfull
    simp [hfull]
  · rename_i hroom
    simp [hroom, eq_comm]

theorem push_eq_error_iff :
    s.push v = .error e ↔ s.capacity ≤ s.height ∧ e = .stackOverflow s.capacity := by
  unfold push
  rw [← Nat.not_lt, ← isFull_eq_false_iff]
  split
  · rename_i hfull
    simp [hfull, eq_comm]
  · rename_i hroom
    simp [hroom]

theorem pop_eq_ok_iff : s.pop = .ok (v, s') ↔ s.peek? = some v ∧ s' = s.drop := by
  unfold pop
  split
  · rename_i top htop
    simp [htop, eq_comm]
  · rename_i hnone
    simp [hnone]

theorem pop_eq_error_iff : s.pop = .error e ↔ s.peek? = none ∧ e = .stackUnderflow := by
  unfold pop
  split
  · rename_i top htop
    simp [htop]
  · rename_i hnone
    simp [hnone, eq_comm]

/-- The word on top is the one that a pop takes off. -/
theorem peek?_eq_some_iff_pop : s.peek? = some v ↔ ∃ s', s.pop = .ok (v, s') := by
  constructor
  · intro htop
    exact ⟨s.drop, pop_eq_ok_iff.2 ⟨htop, rfl⟩⟩
  · rintro ⟨s', hpop⟩
    exact (pop_eq_ok_iff.1 hpop).1

theorem perform_push_of_eq_ok (h : s.push v = .ok s') : s.perform (.push v) = (.done, s') := by
  simp only [perform, h]

theorem perform_push_of_eq_error (h : s.push v = .error e) :
    s.perform (.push v) = (.failed e, s) := by
  simp only [perform, h]

theorem perform_pop_of_eq_ok (h : s.pop = .ok (v, s')) :
    s.perform .pop = (.popped v, s') := by
  simp only [perform, h]

theorem perform_pop_of_eq_error (h : s.pop = .error e) :
    s.perform .pop = (.failed e, s) := by
  simp only [perform, h]

/-! ### One action -/

theorem Refines.height_eq (h : s.Refines l) : s.height = l.words.length := by
  rw [← length_toList, h.toList_eq]

theorem Refines.peek?_eq (h : s.Refines l) : s.peek? = l.words.getLast? := by
  rw [peek?_eq_getLast?, h.toList_eq]

theorem Refines.put (h : s.Refines l) (hroom : l.words.length < bound) (v : Word) :
    (s.put v).Refines (l.append hroom v) where
  capacity_eq := by rw [capacity_put, h.capacity_eq]
  toList_eq := by
    have hheight : s.height < s.capacity := by rwa [h.height_eq, h.capacity_eq]
    rw [toList_put hheight, h.toList_eq]
    rfl

theorem Refines.drop (h : s.Refines l) : s.drop.Refines l.dropLast where
  capacity_eq := h.capacity_eq
  toList_eq := by
    rw [toList_drop, h.toList_eq]
    rfl

/-- **An action has the same result on the stack and on the list**, and leaves them together. -/
theorem Refines.perform (h : s.Refines l) (a : Action) :
    (s.perform a).1 = (l.perform a).1 ∧ (s.perform a).2.Refines (l.perform a).2 := by
  cases a with
  | push v =>
    by_cases hroom : l.words.length < bound
    · have hpush : s.push v = .ok (s.put v) := by
        rw [push_eq_ok_iff, h.height_eq, h.capacity_eq]
        exact ⟨hroom, rfl⟩
      rw [perform_push_of_eq_ok hpush, BoundedList.perform_push_of_lt hroom]
      exact ⟨rfl, h.put hroom v⟩
    · have hpush : s.push v = .error (.stackOverflow bound) := by
        rw [push_eq_error_iff, h.height_eq, h.capacity_eq]
        exact ⟨Nat.le_of_not_lt hroom, rfl⟩
      rw [perform_push_of_eq_error hpush, BoundedList.perform_push_of_not_lt hroom]
      exact ⟨rfl, h⟩
  | pop =>
    cases hlast : l.words.getLast? with
    | some v =>
      have hpop : s.pop = .ok (v, s.drop) := pop_eq_ok_iff.2 ⟨h.peek?_eq.trans hlast, rfl⟩
      rw [perform_pop_of_eq_ok hpop, BoundedList.perform_pop_of_eq_some hlast]
      exact ⟨rfl, h.drop⟩
    | none =>
      have hpop : s.pop = .error .stackUnderflow :=
        pop_eq_error_iff.2 ⟨h.peek?_eq.trans hlast, rfl⟩
      rw [perform_pop_of_eq_error hpop, BoundedList.perform_pop_of_eq_none hlast]
      exact ⟨rfl, h⟩
  | peek => exact ⟨congrArg Result.top h.peek?_eq, h⟩
  | length => exact ⟨congrArg Result.count h.height_eq, h⟩
  | isEmpty =>
    refine ⟨congrArg Result.answer ?_, h⟩
    rw [isEmpty, h.height_eq]
    cases l.words <;> rfl
  | capacity => exact ⟨congrArg Result.count h.capacity_eq, h⟩
  | words => exact ⟨congrArg Result.words h.toList_eq, h⟩

/-- What was held, and what an action pushes, it pops or is held after it. -/
theorem perm_perform (s : Stack) (a : Action) :
    (s.toList ++ a.pushed (s.perform a).1).Perm
      ((s.perform a).1.taken ++ (s.perform a).2.toList) := by
  cases a with
  | push v =>
    cases hpush : s.push v with
    | ok s' =>
      obtain ⟨hroom, rfl⟩ := push_eq_ok_iff.1 hpush
      rw [perform_push_of_eq_ok hpush, toList_put hroom]
      exact List.Perm.refl _
    | error e =>
      rw [perform_push_of_eq_error hpush]
      simp [Action.pushed, Result.taken]
  | pop =>
    cases hpop : s.pop with
    | ok p =>
      obtain ⟨v, s'⟩ := p
      obtain ⟨htop, rfl⟩ := pop_eq_ok_iff.1 hpop
      rw [peek?_eq_getLast?] at htop
      obtain ⟨held, hheld⟩ := List.getLast?_eq_some_iff.1 htop
      rw [perform_pop_of_eq_ok hpop, toList_drop, hheld, List.dropLast_concat]
      simp [Action.pushed, Result.taken]
    | error e =>
      rw [perform_pop_of_eq_error hpop]
      simp [Action.pushed, Result.taken]
  | peek | length | isEmpty | capacity | words =>
    simp [Stack.perform, Action.pushed, Result.taken]

/-! ### Many actions -/

theorem Refines.performAll (h : s.Refines l) (actions : List Action) :
    (s.performAll actions).1 = (l.performAll actions).1 ∧
      (s.performAll actions).2.Refines (l.performAll actions).2 := by
  induction actions generalizing s l with
  | nil => exact ⟨rfl, h⟩
  | cons a actions ih =>
    obtain ⟨hresult, hrefines⟩ := h.perform a
    obtain ⟨hresults, hlast⟩ := ih hrefines
    refine ⟨?_, hlast⟩
    rw [Stack.performAll, BoundedList.performAll, hresult, hresults]

/-- **Nothing is lost, and nothing comes back twice**: what was held and what was pushed is what was
popped and what is still held. -/
theorem perm_performAll (s : Stack) (actions : List Action) :
    (s.toList ++ pushed actions (s.performAll actions).1).Perm
      (popped (s.performAll actions).1 ++ (s.performAll actions).2.toList) := by
  induction actions generalizing s with
  | nil => simp [performAll, pushed, popped]
  | cons a actions ih =>
    have hfirst := (s.perm_perform a).append_right
      (pushed actions ((s.perform a).2.performAll actions).1)
    have hrest := (ih (s.perform a).2).append_left (s.perform a).1.taken
    rw [List.append_assoc, List.append_assoc] at hfirst
    rw [← List.append_assoc (s.perform a).1.taken (popped _)] at hrest
    exact hfirst.trans hrest

/-- **Every stack behaves as a bounded list.**  Whatever is done with a stack that was empty, in
whatever order, and whether or not it fails, the results are those of a list that is bounded by the
capacity of the stack, and the words held are those of this list.  The capacity stays what it was,
the top is the word that the next pop takes off, and the words held are, each as often as it was
pushed, those that were pushed and not popped. -/
theorem refines_boundedList (capacity : Nat) (actions : List Action) :
    let results := ((empty capacity).performAll actions).1
    let s := ((empty capacity).performAll actions).2
    let list := (BoundedList.empty capacity).performAll actions
    results = list.1 ∧ s.toList = list.2.words ∧ s.capacity = capacity ∧
      (∀ v, s.peek? = some v ↔ ∃ s', s.pop = .ok (v, s')) ∧
      (pushed actions results).Perm (popped results ++ s.toList) := by
  have hempty : (empty capacity).Refines (BoundedList.empty capacity) := ⟨rfl, rfl⟩
  obtain ⟨hresults, hlast⟩ := hempty.performAll actions
  refine ⟨hresults, hlast.toList_eq, hlast.capacity_eq, fun v => peek?_eq_some_iff_pop, ?_⟩
  simpa using perm_performAll (empty capacity) actions

/-- A stack for two words that is filled, used once more and filled again. -/
example :
    ((empty 2).performAll [.push 1, .push 2, .pop, .push 3, .push 4, .words, .capacity]).1 =
      [.done, .done, .popped 2, .done, .failed (.stackOverflow 2), .words [1, 3], .count 2] := by
  rfl

end Stack

end RegisterMachine
