import Mathlib.Logic.Basic
import Mathlib.Algebra.GroupWithZero.Nat

/-!
# Little-endian 32-bit words in an array of bytes

    word_setWord_same : i < m → word (setWord b i v) i = v % 2 ^ 32;
    word_setWord_ne   : i ≠ j → word (setWord b i v) j = word b j.

Bytes outside the word are left alone (`setWord_byte`).
-/

namespace Xv6.Lib

variable {m : Nat}

/-- an array of `m` words. -/
abbrev Bytes (m : Nat) : Type := Fin (4 * m) → UInt8

def byte (b : Bytes m) (k : Nat) : UInt8 := if h : k < 4 * m then b ⟨k, h⟩ else 0

def word (b : Bytes m) (i : Nat) : Nat :=
  (byte b (4 * i)).toNat + 256 * (byte b (4 * i + 1)).toNat +
    65536 * (byte b (4 * i + 2)).toNat + 16777216 * (byte b (4 * i + 3)).toNat

def setWord (b : Bytes m) (i v : Nat) : Bytes m := fun k =>
  if k.val / 4 = i then UInt8.ofNat (v / 256 ^ (k.val % 4)) else b k

section
variable (b : Bytes m)

lemma word_lt (i : Nat) : word b i < 2 ^ 32 := by
  have h0 := (byte b (4 * i)).toNat_lt
  have h1 := (byte b (4 * i + 1)).toNat_lt
  have h2 := (byte b (4 * i + 2)).toNat_lt
  have h3 := (byte b (4 * i + 3)).toNat_lt
  unfold word
  omega

lemma setWord_byte (i v : Nat) {k : Nat} (h : k / 4 ≠ i) : byte (setWord b i v) k = byte b k := by
  unfold byte
  split
  · exact if_neg h
  · rfl

lemma byte_setWord {i j : Nat} (v : Nat) (hi : i < m) (hj : j < 4) :
    (byte (setWord b i v) (4 * i + j)).toNat = v / 256 ^ j % 256 := by
  have hd : (4 * i + j) / 4 = i := by omega
  have hm : (4 * i + j) % 4 = j := by omega
  unfold byte
  rw [dif_pos (by omega)]
  show (if (4 * i + j) / 4 = i then UInt8.ofNat (v / 256 ^ ((4 * i + j) % 4)) else _).toNat = _
  rw [if_pos hd, hm]
  exact UInt8.toNat_ofNat'

@[simp] lemma word_setWord_same {i : Nat} (v : Nat) (hi : i < m) : word (setWord b i v) i = v % 2 ^ 32 := by
  have h0 := byte_setWord b v hi (j := 0) (by omega)
  have h1 := byte_setWord b v hi (j := 1) (by omega)
  have h2 := byte_setWord b v hi (j := 2) (by omega)
  have h3 := byte_setWord b v hi (j := 3) (by omega)
  unfold word
  rw [Nat.add_zero] at h0
  rw [h0, h1, h2, h3]
  show v / 1 % 256 + 256 * (v / 256 % 256) + 65536 * (v / 65536 % 256) +
    16777216 * (v / 16777216 % 256) = v % 4294967296
  omega

lemma word_setWord_ne {i j : Nat} (v : Nat) (h : i ≠ j) : word (setWord b i v) j = word b j := by
  unfold word
  rw [setWord_byte b i v (by omega), setWord_byte b i v (by omega), setWord_byte b i v (by omega),
    setWord_byte b i v (by omega)]

end

lemma word_zero (i : Nat) : word (fun _ => 0 : Bytes m) i = 0 := by
  simp [word, byte]

end Xv6.Lib
