/-!
# Machine words

Registers, memory cells, stack slots and program images all hold *words*: signed 32-bit integers
whose arithmetic wraps.  In a file a word takes four bytes, the least significant first.

## Main definitions

* `Word`: a machine word;
* `Word.ofBytes` and `Word.toBytes`: the little-endian form of a word.

## Main statements

* `Word.ofBytes_toBytes` and `Word.toBytes_ofBytes`: four bytes and a word determine each other.
-/

namespace RegisterMachine

/-- A signed 32-bit integer; its arithmetic wraps. -/
abbrev Word := Int32

namespace Word

/-- The word whose bytes, the least significant first, are `b₀`, `b₁`, `b₂`, `b₃`. -/
def ofBytes (b₀ b₁ b₂ b₃ : UInt8) : Word :=
  (UInt32.ofNat
    (b₀.toNat + 256 * (b₁.toNat + 256 * (b₂.toNat + 256 * b₃.toNat)))).toInt32

/-- The byte of `w` that comes after the `i` least significant ones. -/
def byte (w : Word) (i : Nat) : UInt8 :=
  UInt8.ofNat (w.toUInt32.toNat >>> (8 * i))

/-- The four bytes of a word, the least significant first. -/
def toBytes (w : Word) : List UInt8 :=
  [w.byte 0, w.byte 1, w.byte 2, w.byte 3]

theorem toNat_toUInt32_ofBytes (b₀ b₁ b₂ b₃ : UInt8) :
    (ofBytes b₀ b₁ b₂ b₃).toUInt32.toNat =
      b₀.toNat + 256 * (b₁.toNat + 256 * (b₂.toNat + 256 * b₃.toNat)) := by
  have h₀ := b₀.toNat_lt
  have h₁ := b₁.toNat_lt
  have h₂ := b₂.toNat_lt
  have h₃ := b₃.toNat_lt
  simp only [ofBytes, UInt32.toUInt32_toInt32, UInt32.toNat_ofNat']
  omega

theorem toNat_byte (w : Word) (i : Nat) :
    (w.byte i).toNat = w.toUInt32.toNat >>> (8 * i) % 256 := by
  simp [byte]

@[simp]
theorem length_toBytes (w : Word) : w.toBytes.length = 4 := rfl

theorem ofBytes_toBytes (w : Word) :
    ofBytes (w.byte 0) (w.byte 1) (w.byte 2) (w.byte 3) = w := by
  have hw := w.toUInt32.toNat_lt
  have h : (ofBytes (w.byte 0) (w.byte 1) (w.byte 2) (w.byte 3)).toUInt32 = w.toUInt32 := by
    apply UInt32.toNat_inj.1
    rw [toNat_toUInt32_ofBytes]
    simp only [toNat_byte]
    omega
  simpa using congrArg UInt32.toInt32 h

theorem toBytes_ofBytes (b₀ b₁ b₂ b₃ : UInt8) :
    (ofBytes b₀ b₁ b₂ b₃).toBytes = [b₀, b₁, b₂, b₃] := by
  have h₀ := b₀.toNat_lt
  have h₁ := b₁.toNat_lt
  have h₂ := b₂.toNat_lt
  have h₃ := b₃.toNat_lt
  have key : ∀ (i : Nat) (b : UInt8),
      (b₀.toNat + 256 * (b₁.toNat + 256 * (b₂.toNat + 256 * b₃.toNat))) >>> (8 * i) % 256 =
          b.toNat →
        (ofBytes b₀ b₁ b₂ b₃).byte i = b := by
    intro i b h
    apply UInt8.toNat_inj.1
    rw [toNat_byte, toNat_toUInt32_ofBytes, h]
  simp only [toBytes]
  rw [key 0 b₀ (by omega), key 1 b₁ (by omega), key 2 b₂ (by omega), key 3 b₃ (by omega)]

end Word

end RegisterMachine
