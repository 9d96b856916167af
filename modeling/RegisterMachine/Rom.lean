import RegisterMachine.Config
import RegisterMachine.Instruction

/-!
# Program images

A rom is a program that was checked when it was loaded: it consists of whole instructions and fits
in the configured room.  In a file an image is its words one after the other, each as four bytes.

## Main definitions

* `Program.ofBytes` and `Program.toBytes`: the words of an image file, and the file of some words;
* `Rom`, `Rom.ofWords` and `Rom.ofBytes`: a checked image.

## Main statements

* `Rom.ofWords_eq_ok_iff`: accepted are the images of whole instructions that fit.
-/

namespace RegisterMachine

namespace Program

/-- The words of an image file; up to three bytes at the end that make no word are left out. -/
def ofBytes (bytes : ByteArray) : Program :=
  Array.ofFn fun i : Fin (bytes.size / 4) =>
    Word.ofBytes bytes[4 * i.val] bytes[4 * i.val + 1] bytes[4 * i.val + 2] bytes[4 * i.val + 3]

/-- The image file of a program. -/
def toBytes (program : Program) : ByteArray :=
  (program.toList.flatMap Word.toBytes).toByteArray

@[simp]
theorem size_ofBytes (bytes : ByteArray) : (ofBytes bytes).size = bytes.size / 4 := by
  simp [ofBytes]

end Program

/-- A checked program image. -/
structure Rom where
  /-- The words of the image. -/
  words : Program
  /-- The image consists of whole instructions. -/
  whole : words.size % 4 = 0
  deriving DecidableEq, Repr

namespace Rom

/-- Checks that an image consists of whole instructions, and then that it fits. -/
def ofWords (words : Program) (config : Config) : Except Error Rom :=
  if h : words.size % 4 = 0 then
    if words.size ≤ config.rom then
      .ok ⟨words, h⟩
    else
      .error (.imageTooLarge words.size config.rom)
  else
    .error (.truncatedImage words.size)

/-- Checks that an image file consists of whole words, and then the image. -/
def ofBytes (bytes : ByteArray) (config : Config) : Except Error Rom :=
  if bytes.size % 4 = 0 then
    ofWords (Program.ofBytes bytes) config
  else
    .error (.misalignedImage bytes.size)

/-- The number of words in the image. -/
def size (rom : Rom) : Nat :=
  rom.words.size

/-- The image has no words. -/
def isEmpty (rom : Rom) : Bool :=
  rom.words.isEmpty

theorem ofWords_eq_ok_iff {words : Program} {config : Config} {rom : Rom} :
    ofWords words config = .ok rom ↔
      words.size % 4 = 0 ∧ words.size ≤ config.rom ∧ rom.words = words := by
  unfold ofWords
  cases rom
  split
  · rename_i h
    split
    · rename_i hle
      simp [h, hle, eq_comm]
    · rename_i hle
      simp [h, hle]
  · rename_i h
    simp [h]

end Rom

end RegisterMachine
