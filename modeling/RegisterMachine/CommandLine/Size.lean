/-!
# Sizes on the command line

A size is written in decimal digits, with as many leading zeros as one likes and possibly a plus
sign in front, and has to fit in 64 bits.
-/

namespace RegisterMachine

namespace CommandLine

/-- Why a text is no size. -/
inductive SizeError where
  /-- The text is empty. -/
  | empty
  /-- A digit was expected. -/
  | invalidDigit
  /-- The number does not fit in 64 bits. -/
  | tooLarge
  deriving DecidableEq, Repr

/-- The text of a size error. -/
def SizeError.message : SizeError → String
  | empty => "cannot parse integer from empty string"
  | invalidDigit => "invalid digit found in string"
  | tooLarge => "number too large to fit in target type"

/-- Every size is below this bound. -/
def sizeBound : Nat := UInt64.size

/-- The number that `digits` stand for when they follow the digits of `value`.  The first character
that is no digit, or that makes the number too large, decides about the error. -/
def readDigits (value : Nat) : List Char → Except SizeError Nat
  | [] => .ok value
  | c :: digits =>
    if c.isDigit then
      if 10 * value + (c.toNat - '0'.toNat) < sizeBound then
        readDigits (10 * value + (c.toNat - '0'.toNat)) digits
      else
        .error .tooLarge
    else
      .error .invalidDigit

/-- The size that a text stands for. -/
def parseSize (text : String) : Except SizeError Nat :=
  match text.toList with
  | [] => .error .empty
  | ['+'] => .error .invalidDigit
  | '+' :: digits => readDigits 0 digits
  | digits => readDigits 0 digits

theorem readDigits_append (value : Nat) (before after : List Char) :
    readDigits value (before ++ after) =
      (readDigits value before).bind fun value => readDigits value after := by
  induction before generalizing value with
  | nil => rfl
  | cons c before ih =>
    simp only [List.cons_append, readDigits]
    split
    · split
      · exact ih _
      · rfl
    · rfl

end CommandLine

end RegisterMachine
