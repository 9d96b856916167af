import Mathlib.Algebra.Ring.Int.Defs
import RegisterMachine.Proofs.InstructionSequence
import RegisterMachine.Rom

/-!
# Image files

A program and its image file determine each other: byte `j` of a word is digit `j` of its value in
the base 256, where a negative value counts modulo `2 ^ 32`.  Loading a file is therefore the same
as loading the words that it stands for, and a file is refused for the first of three reasons: it
ends inside a word, it ends inside an instruction, or it does not fit.

## Main definitions

* `Program.HasImage` : the bytes of the image file of a program, one by one.

## Main statements

* `Program.hasImage_iff` : every program has exactly one image file;
* `Program.ofBytes_toBytes` and `Program.toBytes_ofBytes` : programs and files of whole words
  determine each other;
* `Rom.ofWords_eq_error_iff` : which words are refused, and why;
* `Rom.image_exact` : a file is loaded as the words in it are, and which files are refused.
-/

namespace RegisterMachine

/-- `bytes` is the image file of `program`: every word takes four bytes, the digits of its value in
the base 256, the lowest first. -/
structure Program.HasImage (program : Program) (bytes : ByteArray) : Prop where
  /-- There are four bytes for each word. -/
  size_eq : bytes.size = 4 * program.size
  /-- Byte `j` of a word is digit `j` of its value. -/
  digit : ∀ i w, program[i]? = some w → ∀ j < 4,
    ∃ b, bytes[4 * i + j]? = some b ∧ (b.toNat : Int) = w.toInt / 256 ^ j % 256

/-! ### Bytes of words -/

namespace Word

/-- The unsigned value of a word is the signed one modulo `2 ^ 32`. -/
theorem natCast_toNat_toUInt32 (w : Word) : (w.toUInt32.toNat : Int) = w.toInt % 2 ^ 32 := by
  have hcond := w.toBitVec.toInt_eq_toNat_cond
  have hlt := w.toBitVec.isLt
  change (w.toBitVec.toNat : Int) = w.toBitVec.toInt % 2 ^ 32
  omega

/-- The bytes of a word are the digits of its value. -/
theorem natCast_toNat_byte (w : Word) {j : Nat} (hj : j < 4) :
    ((w.byte j).toNat : Int) = w.toInt / 256 ^ j % 256 := by
  have hvalue := natCast_toNat_toUInt32 w
  rw [toNat_byte]
  match j, hj with
  | 0, _ | 1, _ | 2, _ | 3, _ => omega

theorem getElem?_toBytes (w : Word) {j : Nat} (hj : j < 4) : w.toBytes[j]? = some (w.byte j) := by
  match j, hj with
  | 0, _ | 1, _ | 2, _ | 3, _ => rfl

end Word

/-! ### Files of words -/

namespace Program

variable {program : Program} {bytes : ByteArray}

@[simp]
theorem size_toBytes (program : Program) : program.toBytes.size = 4 * program.size := by
  rw [toBytes, List.size_toByteArray, length_flatMap_of_length_eq Word.length_toBytes,
    Array.length_toList]

/-- Byte `j` of word `i` stands at `4 * i + j` in the file. -/
theorem getElem?_toBytes {i : Nat} {w : Word} (hw : program[i]? = some w) {j : Nat} (hj : j < 4) :
    program.toBytes[4 * i + j]? = some (w.byte j) := by
  have hword : program.toList[i]? = some w := Array.getElem?_toList.trans hw
  have hbyte := getElem?_flatMap_of_length_eq Word.length_toBytes program.toList i hj
  rw [hword, Option.bind_some, w.getElem?_toBytes hj] at hbyte
  obtain ⟨hlt, hbyte⟩ := List.getElem?_eq_some_iff.1 hbyte
  rw [getElem?_eq_some_iff]
  refine ⟨by rwa [toBytes, List.size_toByteArray], ?_⟩
  rw [← hbyte]
  exact List.getElem_toByteArray

theorem hasImage_toBytes (program : Program) : program.HasImage program.toBytes where
  size_eq := size_toBytes program
  digit _ w hw j hj := ⟨w.byte j, getElem?_toBytes hw hj, w.natCast_toNat_byte hj⟩

/-- **Every program has exactly one image file.** -/
theorem hasImage_iff : program.HasImage bytes ↔ bytes = program.toBytes := by
  constructor
  · intro h
    refine ByteArray.ext_getElem (by rw [h.size_eq, size_toBytes]) fun k hk hk' => ?_
    -- byte `k` is byte `j` of word `i`
    obtain ⟨i, j, hj, rfl⟩ : ∃ i j, j < 4 ∧ k = 4 * i + j :=
      ⟨k / 4, k % 4, Nat.mod_lt k (by decide), (Nat.div_add_mod k 4).symm⟩
    have hi : i < program.size := by
      rw [h.size_eq] at hk
      omega
    have hw := Array.getElem?_eq_getElem hi
    obtain ⟨b, hb, hdigit⟩ := h.digit i _ hw j hj
    obtain ⟨_, hb⟩ := getElem?_eq_some_iff.1 hb
    obtain ⟨_, hbyte⟩ := getElem?_eq_some_iff.1 (getElem?_toBytes hw hj)
    rw [hb, hbyte]
    rw [← Word.natCast_toNat_byte _ hj] at hdigit
    exact UInt8.toNat_inj.1 (Int.ofNat_inj.1 hdigit)
  · rintro rfl
    exact hasImage_toBytes program

/-- Word `i` of a file is made of its bytes from `4 * i` on. -/
theorem getElem?_ofBytes_eq_some_iff {i : Nat} {w : Word} :
    (ofBytes bytes)[i]? = some w ↔
      ∃ b₀ b₁ b₂ b₃, bytes[4 * i]? = some b₀ ∧ bytes[4 * i + 1]? = some b₁ ∧
        bytes[4 * i + 2]? = some b₂ ∧ bytes[4 * i + 3]? = some b₃ ∧
        w = Word.ofBytes b₀ b₁ b₂ b₃ := by
  rw [Array.getElem?_eq_some_iff]
  constructor
  · rintro ⟨hi, rfl⟩
    rw [size_ofBytes] at hi
    refine ⟨_, _, _, _, getElem?_pos bytes _ (by omega), getElem?_pos bytes _ (by omega),
      getElem?_pos bytes _ (by omega), getElem?_pos bytes _ (by omega), ?_⟩
    exact Array.getElem_ofFn _
  · rintro ⟨b₀, b₁, b₂, b₃, h₀, h₁, h₂, h₃, rfl⟩
    obtain ⟨-, rfl⟩ := getElem?_eq_some_iff.1 h₀
    obtain ⟨-, rfl⟩ := getElem?_eq_some_iff.1 h₁
    obtain ⟨-, rfl⟩ := getElem?_eq_some_iff.1 h₂
    obtain ⟨hlt, rfl⟩ := getElem?_eq_some_iff.1 h₃
    refine ⟨?_, Array.getElem_ofFn _⟩
    rw [size_ofBytes]
    omega

/-- **A program is what its file is read as.** -/
theorem ofBytes_toBytes (program : Program) : ofBytes program.toBytes = program := by
  apply Array.ext_getElem?
  intro i
  cases hw : program[i]? with
  | none =>
    rw [Array.getElem?_eq_none_iff] at hw ⊢
    rw [size_ofBytes, size_toBytes]
    omega
  | some w =>
    exact getElem?_ofBytes_eq_some_iff.2 ⟨w.byte 0, w.byte 1, w.byte 2, w.byte 3,
      getElem?_toBytes hw (j := 0) (by decide), getElem?_toBytes hw (by decide),
      getElem?_toBytes hw (by decide), getElem?_toBytes hw (by decide), w.ofBytes_toBytes.symm⟩

/-- **A file of whole words is the file of what it is read as.** -/
theorem toBytes_ofBytes (h : bytes.size % 4 = 0) : (ofBytes bytes).toBytes = bytes := by
  symm
  rw [← hasImage_iff]
  refine ⟨by rw [size_ofBytes]; omega, fun i w hw j hj => ?_⟩
  obtain ⟨b₀, b₁, b₂, b₃, h₀, h₁, h₂, h₃, rfl⟩ := getElem?_ofBytes_eq_some_iff.1 hw
  -- the bytes of a word that was made of bytes are these bytes
  have hbyte := (Word.ofBytes b₀ b₁ b₂ b₃).getElem?_toBytes hj
  rw [Word.toBytes_ofBytes] at hbyte
  rw [← Word.natCast_toNat_byte _ hj]
  refine ⟨_, ?_, rfl⟩
  rw [← hbyte]
  match j, hj with
  | 0, _ => exact h₀
  | 1, _ => exact h₁
  | 2, _ => exact h₂
  | 3, _ => exact h₃

end Program

/-! ### Loading -/

namespace Rom

variable {words : Program} {bytes : ByteArray} {config : Config} {rom : Rom} {e : Error}

/-- Words are refused that end inside an instruction, and whole instructions that do not fit. -/
theorem ofWords_eq_error_iff :
    ofWords words config = .error e ↔
      words.size % 4 ≠ 0 ∧ e = .truncatedImage words.size ∨
        words.size % 4 = 0 ∧ config.rom < words.size ∧
          e = .imageTooLarge words.size config.rom := by
  unfold ofWords
  split
  · rename_i hwhole
    split
    · rename_i hfits
      simp [hwhole, Nat.not_lt.2 hfits]
    · rename_i hlarge
      simp [hwhole, Nat.lt_of_not_le hlarge, eq_comm]
  · rename_i hpart
    simp [hpart, eq_comm]

theorem ofBytes_of_size (h : bytes.size % 4 = 0) :
    ofBytes bytes config = ofWords (Program.ofBytes bytes) config :=
  if_pos h

theorem ofBytes_of_size_ne (h : bytes.size % 4 ≠ 0) :
    ofBytes bytes config = .error (.misalignedImage bytes.size) :=
  if_neg h

theorem ofBytes_toBytes (words : Program) (config : Config) :
    ofBytes words.toBytes config = ofWords words config := by
  have hsize : words.toBytes.size % 4 = 0 := by
    rw [Program.size_toBytes]
    omega
  rw [ofBytes_of_size hsize, Program.ofBytes_toBytes]

/-- A file is accepted when it is the file of whole instructions that fit. -/
theorem ofBytes_eq_ok_iff :
    ofBytes bytes config = .ok rom ↔
      bytes.size % 16 = 0 ∧ bytes.size / 4 ≤ config.rom ∧ rom.words.toBytes = bytes := by
  by_cases hsize : bytes.size % 4 = 0
  · rw [ofBytes_of_size hsize, ofWords_eq_ok_iff, Program.size_ofBytes]
    constructor
    · rintro ⟨hwhole, hfits, hwords⟩
      exact ⟨by omega, hfits, by rw [hwords, Program.toBytes_ofBytes hsize]⟩
    · rintro ⟨hwhole, hfits, hbytes⟩
      exact ⟨by omega, hfits, by rw [← hbytes, Program.ofBytes_toBytes]⟩
  · rw [ofBytes_of_size_ne hsize]
    refine iff_of_false (fun h => by cases h) ?_
    rintro ⟨hwhole, -⟩
    omega

theorem exists_ofBytes_eq_ok_iff :
    (∃ rom, ofBytes bytes config = .ok rom) ↔
      bytes.size % 16 = 0 ∧ bytes.size / 4 ≤ config.rom := by
  simp only [ofBytes_eq_ok_iff]
  constructor
  · rintro ⟨rom, hwhole, hfits, -⟩
    exact ⟨hwhole, hfits⟩
  · rintro ⟨hwhole, hfits⟩
    have hwords : (Program.ofBytes bytes).size % 4 = 0 := by
      rw [Program.size_ofBytes]
      omega
    exact ⟨⟨Program.ofBytes bytes, hwords⟩, hwhole, hfits, Program.toBytes_ofBytes (by omega)⟩

theorem ofBytes_eq_error_iff :
    ofBytes bytes config = .error e ↔
      bytes.size % 4 ≠ 0 ∧ e = .misalignedImage bytes.size ∨
        bytes.size % 4 = 0 ∧ bytes.size / 4 % 4 ≠ 0 ∧ e = .truncatedImage (bytes.size / 4) ∨
        bytes.size % 4 = 0 ∧ bytes.size / 4 % 4 = 0 ∧ config.rom < bytes.size / 4 ∧
          e = .imageTooLarge (bytes.size / 4) config.rom := by
  by_cases hsize : bytes.size % 4 = 0
  · rw [ofBytes_of_size hsize, ofWords_eq_error_iff, Program.size_ofBytes]
    simp [hsize]
  · rw [ofBytes_of_size_ne hsize]
    simp [hsize, eq_comm]

/-- **A file is loaded as the words in it are.**  Every program has exactly one image file, and to
load this file is to load the program, whether it is accepted or refused.  A file is accepted when
its size is a multiple of sixteen bytes and the words in it fit, and then it is the file of the
image that was loaded.  Otherwise it is refused, for the first reason of three: it ends inside a
word, it ends inside an instruction, or it does not fit. -/
theorem image_exact (config : Config) :
    (∀ words : Program, (∀ bytes, words.HasImage bytes ↔ bytes = words.toBytes) ∧
      ofBytes words.toBytes config = ofWords words config) ∧
    ∀ bytes : ByteArray,
      ((∃ rom, ofBytes bytes config = .ok rom) ↔
        bytes.size % 16 = 0 ∧ bytes.size / 4 ≤ config.rom) ∧
      (∀ rom, ofBytes bytes config = .ok rom → rom.words.toBytes = bytes) ∧
      ∀ e, ofBytes bytes config = .error e ↔
        bytes.size % 4 ≠ 0 ∧ e = .misalignedImage bytes.size ∨
        bytes.size % 4 = 0 ∧ bytes.size / 4 % 4 ≠ 0 ∧ e = .truncatedImage (bytes.size / 4) ∨
        bytes.size % 4 = 0 ∧ bytes.size / 4 % 4 = 0 ∧ config.rom < bytes.size / 4 ∧
          e = .imageTooLarge (bytes.size / 4) config.rom := by
  refine ⟨fun words => ⟨fun _ => Program.hasImage_iff, ofBytes_toBytes words config⟩,
    fun bytes => ⟨exists_ofBytes_eq_ok_iff, fun rom h => ?_, fun e => ofBytes_eq_error_iff⟩⟩
  exact (ofBytes_eq_ok_iff.1 h).2.2

/-- The file of an instruction with the words `1`, `-2`, the least and the greatest one. -/
theorem image_exact_signs :
    ofBytes ⟨#[1, 0, 0, 0, 0xFE, 0xFF, 0xFF, 0xFF, 0, 0, 0, 0x80, 0xFF, 0xFF, 0xFF, 0x7F]⟩ {} =
        .ok ⟨#[1, -2, Int32.minValue, Int32.maxValue], rfl⟩ ∧
      Program.toBytes #[1, -2, Int32.minValue, Int32.maxValue] =
        ⟨#[1, 0, 0, 0, 0xFE, 0xFF, 0xFF, 0xFF, 0, 0, 0, 0x80, 0xFF, 0xFF, 0xFF, 0x7F]⟩ := by
  have h : ofBytes
      ⟨#[1, 0, 0, 0, 0xFE, 0xFF, 0xFF, 0xFF, 0, 0, 0, 0x80, 0xFF, 0xFF, 0xFF, 0x7F]⟩ {} =
        .ok ⟨#[1, -2, Int32.minValue, Int32.maxValue], rfl⟩ := by
    rfl
  exact ⟨h, ((image_exact {}).2 _).2.1 _ h⟩

end Rom

end RegisterMachine
