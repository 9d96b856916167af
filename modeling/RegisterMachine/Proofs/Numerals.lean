import Mathlib.Algebra.Group.Nat.Defs
import RegisterMachine.Hexadecimal

/-!
# Numerals in texts

A number can be read back from its numeral, and a numeral can be found again in a text: it consists
of digits, so it ends where the first other character stands.

## Main definitions

* `Hexadecimal.alphabet` and `Hexadecimal.value` : the hexadecimal digits, and the number that a row
  of them stands for.

## Main statements

* `append_inj_of_head?` : a text ends where the first character stands that is not in it;
* `not_mem_toString_nat` and `not_mem_toString_int` : what is not in a decimal numeral;
* `toString_nat_append_inj` and `toString_int_append_inj` : a decimal numeral is found again in
  front of other characters;
* `Hexadecimal.value_padded` and `Hexadecimal.length_padded` : the value and the length of a
  hexadecimal numeral;
* `Hexadecimal.padded_append_inj` : a hexadecimal numeral is found again as well.
-/

namespace RegisterMachine

/-! ### Texts that are put together -/

theorem append_cons_inj_of_not_mem {α : Type} {l l' u u' : List α} {a : α} (hl : a ∉ l)
    (hl' : a ∉ l') (h : l ++ a :: u = l' ++ a :: u') : l = l' ∧ u = u' := by
  induction l generalizing l' with
  | nil =>
    cases l' with
    | nil => exact ⟨rfl, (List.cons.inj h).2⟩
    | cons b l' => exact absurd ((List.cons.inj h).1 ▸ List.mem_cons_self) hl'
  | cons b l ih =>
    cases l' with
    | nil => exact absurd ((List.cons.inj h).1 ▸ List.mem_cons_self) hl
    | cons b' l' =>
      obtain ⟨rfl, htail⟩ := List.cons.inj h
      obtain ⟨rfl, rfl⟩ :=
        ih (List.not_mem_of_not_mem_cons hl) (List.not_mem_of_not_mem_cons hl') htail
      exact ⟨rfl, rfl⟩

/-- **A text is found again in front of a character that is not in it.** -/
theorem append_inj_of_head? {s s' t t' : String} {c : Char} (hs : c ∉ s.toList)
    (hs' : c ∉ s'.toList) (ht : t.toList.head? = some c) (ht' : t'.toList.head? = some c)
    (h : s ++ t = s' ++ t') : s = s' ∧ t = t' := by
  obtain ⟨u, hu⟩ := List.head?_eq_some_iff.1 ht
  obtain ⟨u', hu'⟩ := List.head?_eq_some_iff.1 ht'
  have hlists : s.toList ++ c :: u = s'.toList ++ c :: u' := by
    rw [← hu, ← hu', ← String.toList_append, ← String.toList_append, h]
  obtain ⟨hl, rfl⟩ := append_cons_inj_of_not_mem hs hs' hlists
  exact ⟨String.toList_inj.1 hl, String.toList_inj.1 (hu.trans hu'.symm)⟩

/-- The same from the other end: a list is found again behind an element that is not in it. -/
theorem append_cons_inj_of_not_mem_right {α : Type} {l l' u u' : List α} {a : α} (hu : a ∉ u)
    (hu' : a ∉ u') (h : l ++ a :: u = l' ++ a :: u') : l = l' ∧ u = u' := by
  have hreverse : u.reverse ++ a :: l.reverse = u'.reverse ++ a :: l'.reverse := by
    simpa using congrArg List.reverse h
  obtain ⟨hback, hfront⟩ :=
    append_cons_inj_of_not_mem (by simpa using hu) (by simpa using hu') hreverse
  exact ⟨List.reverse_inj.1 hfront, List.reverse_inj.1 hback⟩

/-! ### Decimal numerals -/

theorem isDigit_of_mem_toString {n : Nat} {c : Char} (hc : c ∈ (toString n).toList) :
    c.isDigit = true := by
  rw [Nat.toString_eq_repr, Nat.repr_eq_ofList_toDigits, String.toList_ofList] at hc
  exact Nat.isDigit_of_mem_toDigits (by decide) (by decide) hc

theorem not_mem_toString_nat {c : Char} (hc : c.isDigit = false) (n : Nat) :
    c ∉ (toString n).toList := by
  intro hmem
  rw [isDigit_of_mem_toString hmem] at hc
  cases hc

theorem not_mem_toString_int {c : Char} (hc : c.isDigit = false) (hsign : c ≠ '-') (i : Int) :
    c ∉ (toString i).toList := by
  rw [Int.toString_eq_repr, Int.repr_eq_if, ← Nat.toString_eq_repr, ← Nat.toString_eq_repr]
  split
  · exact not_mem_toString_nat hc _
  · rw [String.toList_append, List.mem_append]
    rintro (hmem | hmem)
    · exact hsign (List.mem_singleton.1 hmem)
    · exact not_mem_toString_nat hc _ hmem

theorem toString_nat_inj {n n' : Nat} : toString n = toString n' ↔ n = n' := by
  refine ⟨fun h => ?_, congrArg toString⟩
  rw [Nat.toString_eq_ofList_toDigits, Nat.toString_eq_ofList_toDigits, String.ofList_inj] at h
  rw [← Nat.ofDigitChars_ten_toDigits (n := n), h, Nat.ofDigitChars_ten_toDigits]

theorem between_toString_nat_inj {s t : String} {n n' : Nat} :
    s ++ toString n ++ t = s ++ toString n' ++ t ↔ n = n' := by
  rw [String.append_left_inj, String.append_right_inj, toString_nat_inj]

theorem toString_int_inj {i i' : Int} : toString i = toString i' ↔ i = i' := by
  refine ⟨fun h => ?_, congrArg toString⟩
  have hsign (n k : Nat) : toString n ≠ "-" ++ toString k := by
    intro heq
    apply not_mem_toString_nat (c := '-') (by decide) n
    rw [heq]
    simp
  cases i with
  | ofNat n =>
    cases i' with
    | ofNat n' => rw [toString_nat_inj.1 h]
    | negSucc n' => exact absurd h (hsign n (n' + 1))
  | negSucc n =>
    cases i' with
    | ofNat n' => exact absurd h.symm (hsign n' (n + 1))
    | negSucc n' =>
      have hsucc : n + 1 = n' + 1 := toString_nat_inj.1 ((String.append_right_inj "-").1 h)
      rw [Nat.succ.inj hsucc]

/-- **A numeral is found again in front of a character that is no digit.** -/
theorem toString_nat_append_inj {n n' : Nat} {t t' : String} {c : Char} (hc : c.isDigit = false)
    (ht : t.toList.head? = some c) (ht' : t'.toList.head? = some c)
    (h : toString n ++ t = toString n' ++ t') : n = n' ∧ t = t' := by
  obtain ⟨hn, htail⟩ := append_inj_of_head? (not_mem_toString_nat hc n) (not_mem_toString_nat hc n')
    ht ht' h
  exact ⟨toString_nat_inj.1 hn, htail⟩

theorem toString_int_append_inj {i i' : Int} {t t' : String} {c : Char} (hc : c.isDigit = false)
    (hsign : c ≠ '-') (ht : t.toList.head? = some c) (ht' : t'.toList.head? = some c)
    (h : toString i ++ t = toString i' ++ t') : i = i' ∧ t = t' := by
  obtain ⟨hi, htail⟩ := append_inj_of_head? (not_mem_toString_int hc hsign i)
    (not_mem_toString_int hc hsign i') ht ht' h
  exact ⟨toString_int_inj.1 hi, htail⟩

/-! ### Hexadecimal numerals -/

namespace Hexadecimal

variable {n width : Nat} {c : Char}

/-- The digits, in the order of their values. -/
def alphabet : List Char :=
  "0123456789ABCDEF".toList

/-- The number that the digits stand for, the most significant first. -/
def value (cs : List Char) : Nat :=
  cs.foldl (fun n c => 16 * n + alphabet.idxOf c) 0

theorem value_concat (cs : List Char) (c : Char) :
    value (cs ++ [c]) = 16 * value cs + alphabet.idxOf c := by
  rw [value, List.foldl_append]
  rfl

/-- Zeros in front of a numeral do not count. -/
theorem value_replicate_append (k : Nat) (cs : List Char) :
    value (List.replicate k '0' ++ cs) = value cs := by
  induction k with
  | zero => rfl
  | succ k ih => exact ih

theorem digitChar_toUpper {d : Nat} (hd : d < 16) :
    d.digitChar.toUpper ∈ alphabet ∧ alphabet.idxOf d.digitChar.toUpper = d := by
  revert d
  decide

theorem value_digits (n : Nat) : value (digits n) = n := by
  induction n using Nat.strongRecOn with
  | ind n ih =>
    rcases Nat.lt_or_ge n 16 with hlt | hge
    · rw [digits_of_lt hlt]
      obtain ⟨-, hvalue⟩ := digitChar_toUpper hlt
      show 16 * 0 + alphabet.idxOf n.digitChar.toUpper = n
      rw [hvalue, Nat.mul_zero, Nat.zero_add]
    · obtain ⟨-, hvalue⟩ := digitChar_toUpper (Nat.mod_lt n (by decide : 0 < 16))
      rw [digits_of_le hge, value_concat, ih (n / 16) (by omega), hvalue, Nat.div_add_mod]

theorem mem_alphabet_of_mem_digits (hc : c ∈ digits n) : c ∈ alphabet := by
  induction n using Nat.strongRecOn with
  | ind n ih =>
    rcases Nat.lt_or_ge n 16 with hlt | hge
    · rw [digits_of_lt hlt, List.mem_singleton] at hc
      rw [hc]
      exact (digitChar_toUpper hlt).1
    · rw [digits_of_le hge, List.mem_append, List.mem_singleton] at hc
      rcases hc with hc | rfl
      · exact ih (n / 16) (by omega) hc
      · exact (digitChar_toUpper (Nat.mod_lt n (by decide))).1

theorem length_digits_le (hwidth : 0 < width) (hn : n < 16 ^ width) :
    (digits n).length ≤ width := by
  rw [digits, List.length_map]
  exact (Nat.length_toDigits_le_iff (by decide) hwidth).2 hn

/-- **The number can be read back from its numeral.** -/
theorem value_padded (width n : Nat) : value (padded width n).toList = n := by
  rw [padded, String.toList_ofList, List.leftpad, value_replicate_append, value_digits]

theorem mem_alphabet_of_mem_padded (hc : c ∈ (padded width n).toList) : c ∈ alphabet := by
  rw [padded, String.toList_ofList, List.leftpad, List.mem_append] at hc
  rcases hc with hc | hc
  · rw [List.eq_of_mem_replicate hc]
    decide
  · exact mem_alphabet_of_mem_digits hc

theorem padded_append_inj {n' width' : Nat} {t t' : String} (hc : c ∉ alphabet)
    (ht : t.toList.head? = some c) (ht' : t'.toList.head? = some c)
    (h : padded width n ++ t = padded width' n' ++ t') : n = n' ∧ t = t' := by
  obtain ⟨hpadded, htail⟩ := append_inj_of_head? (fun hmem => hc (mem_alphabet_of_mem_padded hmem))
    (fun hmem => hc (mem_alphabet_of_mem_padded hmem)) ht ht' h
  refine ⟨?_, htail⟩
  rw [← value_padded width n, hpadded, value_padded]

theorem length_padded (hwidth : 0 < width) (hn : n < 16 ^ width) :
    (padded width n).toList.length = width := by
  rw [padded, String.toList_ofList, List.length_leftpad]
  exact Nat.max_eq_left (length_digits_le hwidth hn)

end Hexadecimal

end RegisterMachine
