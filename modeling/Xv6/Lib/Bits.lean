import Xv6.Lib.Words
import Mathlib.Data.Nat.Bitwise

/-!
# Runs of words, and bits, in an array of bytes

    word_setWords : the words `lo`, ..., `lo + n - 1` are those of `f`, the others stay;
    bitAt_setBit  : the bit `i` is set, the others stay.
-/

namespace Xv6.Lib

variable {m : Nat}

/-- `n` words from the word `lo` on. -/
def setWords (b : Bytes m) (lo n : Nat) (f : Nat → Nat) : Bytes m := fun k =>
  if lo ≤ k.val / 4 ∧ k.val / 4 < lo + n then UInt8.ofNat (f (k.val / 4 - lo) / 256 ^ (k.val % 4)) else b k

lemma byte_setWords (b : Bytes m) {lo n : Nat} (f : Nat → Nat) (k : Nat) :
    byte (setWords b lo n f) k =
      if lo ≤ k / 4 ∧ k / 4 < lo + n then byte (setWord b (k / 4) (f (k / 4 - lo))) k else byte b k := by
  unfold byte
  split
  · next hk =>
    show (if lo ≤ k / 4 ∧ k / 4 < lo + n then _ else _) = _
    by_cases h : lo ≤ k / 4 ∧ k / 4 < lo + n
    · rw [if_pos h, if_pos h]
      exact (if_pos rfl).symm
    · rw [if_neg h, if_neg h]
  · rw [ite_self]

lemma word_setWords (b : Bytes m) {lo n i : Nat} (f : Nat → Nat) (hi : i < m) :
    word (setWords b lo n f) i = if lo ≤ i ∧ i < lo + n then f (i - lo) % 2 ^ 32 else word b i := by
  have h0 : 4 * i / 4 = i := by omega
  have h1 : (4 * i + 1) / 4 = i := by omega
  have h2 : (4 * i + 2) / 4 = i := by omega
  have h3 : (4 * i + 3) / 4 = i := by omega
  by_cases h : lo ≤ i ∧ i < lo + n
  · rw [if_pos h, ← word_setWord_same b (f (i - lo)) hi]
    unfold word
    rw [byte_setWords, byte_setWords, byte_setWords, byte_setWords, h0, h1, h2, h3, if_pos h, if_pos h, if_pos h,
      if_pos h]
  · rw [if_neg h]
    unfold word
    rw [byte_setWords, byte_setWords, byte_setWords, byte_setWords, h0, h1, h2, h3, if_neg h, if_neg h, if_neg h,
      if_neg h]

/-! ## bits -/

/-- the bit `i % 8` of the byte `i / 8`. -/
def bitAt (b : Bytes m) (i : Nat) : Bool := (byte b (i / 8)).toNat.testBit (i % 8)

/-- `b[i/8] |= 1 << (i%8)` -/
def setBit (b : Bytes m) (i : Nat) : Bytes m := fun k =>
  if k.val = i / 8 then b k ||| UInt8.ofNat (2 ^ (i % 8)) else b k

lemma bitAt_zero (i : Nat) : bitAt (fun _ => 0 : Bytes m) i = false := by
  have h : byte (fun _ => 0 : Bytes m) (i / 8) = 0 := by
    unfold byte
    rw [dite_eq_ite, ite_self]
  unfold bitAt
  rw [h]
  exact Nat.zero_testBit _

lemma bitAt_setBit (b : Bytes m) {i j : Nat} (hj : j < 32 * m) :
    bitAt (setBit b i) j = (decide (j = i) || bitAt b j) := by
  have hlt : j / 8 < 4 * m := by omega
  unfold bitAt byte
  rw [dif_pos hlt, dif_pos hlt]
  show ((if j / 8 = i / 8 then _ else _ : UInt8)).toNat.testBit (j % 8) = _
  by_cases hb : j / 8 = i / 8
  · have hpow : 2 ^ (i % 8) < 256 :=
      Nat.lt_of_le_of_lt (Nat.pow_le_pow_right (by decide) (show i % 8 ≤ 7 by omega)) (by decide)
    rw [if_pos hb, UInt8.toNat_or, Nat.testBit_or, UInt8.toNat_ofNat', Nat.mod_eq_of_lt hpow,
      Nat.testBit_two_pow, Bool.or_comm]
    congr 1
    rw [decide_eq_decide]
    omega
  · have hne : j ≠ i := fun h => hb (by rw [h])
    rw [if_neg hb, decide_eq_false hne, Bool.false_or]

lemma bitAt_foldl (l : List Nat) (b : Bytes m) {j : Nat} (hj : j < 32 * m) :
    bitAt (l.foldl setBit b) j = (decide (j ∈ l) || bitAt b j) := by
  induction l generalizing b with
  | nil => rfl
  | cons i l ih =>
    rw [List.foldl_cons, ih, bitAt_setBit b hj, ← Bool.or_assoc]
    congr 1
    rw [← Bool.decide_or, decide_eq_decide, List.mem_cons]
    exact or_comm

end Xv6.Lib
