import Xv6.Lib.Words
import Xv6.Proc.Table

/-!
# Blocks, the disk and the header of the log (`log.c`, `fs.h`, `param.h`)

The header block holds `n` in its first word and `block[i]` in the word `i + 1`. In memory
`log.lh` is the list `block[0 .. n)`; the entries behind are never read.
-/

namespace Xv6
open Lib List

/-- `param.h`: "max # of blocks any FS op writes". -/
abbrev MAXOPBLOCKS : Nat := 10

/-- `param.h`: "max data blocks in on-disk log"; the length of `lh.block`. -/
abbrev LOGSIZE : Nat := MAXOPBLOCKS * 3

/-- a disk block, `BSIZE` = 512 bytes. -/
abbrev Block := Bytes 128

abbrev Disk := Nat → Block

namespace Log

/-- `hb->block[i] = log.lh.block[i]` for the rest `l` of the list, from the index `i` on. -/
def putBlocks : Nat → List Nat → Block → Block
  | _, [], b => b
  | i, x :: l, b => putBlocks (i + 1) l (setWord b (i + 1) x)

/-- `write_head`: the header block with `log.lh` stored into it. -/
def writeHead (lh : List Nat) (b : Block) : Block := putBlocks 0 lh (setWord b 0 lh.length)

/-- `read_head`: an `n` above `LOGSIZE` would run over the end of `log.lh.block`. -/
def readHead (b : Block) : Except Stop (List Nat) :=
  if int32 (word b 0) ≤ LOGSIZE then
    .ok ((List.range (int32 (word b 0)).toNat).map fun i => word b (i + 1))
  else .error .index

/-! ## what is written is read back -/

lemma putBlocks_word_le (l : List Nat) (i : Nat) (b : Block) {j : Nat} (h : j ≤ i) :
    word (putBlocks i l b) j = word b j := by
  induction l generalizing i b with
  | nil => rfl
  | cons x l ih =>
    show word (putBlocks (i + 1) l (setWord b (i + 1) x)) j = _
    rw [ih (i + 1) _ (by omega), word_setWord_ne _ _ (by omega)]

lemma putBlocks_word (l : List Nat) (i : Nat) (b : Block) (hl : i + l.length < 128)
    {j : Nat} (hj : j < l.length) : word (putBlocks i l b) (i + j + 1) = l[j] % 2 ^ 32 := by
  induction l generalizing i b j with
  | nil => cases hj
  | cons x l ih =>
    rw [length_cons] at hl hj
    show word (putBlocks (i + 1) l (setWord b (i + 1) x)) (i + j + 1) = _
    cases j with
    | zero =>
      rw [putBlocks_word_le l (i + 1) _ (by omega), Nat.add_zero, word_setWord_same _ _ (by omega)]
      rfl
    | succ j =>
      have e : i + (j + 1) + 1 = i + 1 + j + 1 := by omega
      rw [e, ih (i + 1) _ (by omega) (by omega)]
      rfl

lemma int32_small {x : Nat} (h : x < 2 ^ 31) : int32 x = x := by
  unfold int32
  rw [Int.bmod_eq_of_le] <;> omega

/-- **The header is read back as it was written.** -/
theorem readHead_writeHead {lh : List Nat} (b : Block) (hl : lh.length ≤ LOGSIZE)
    (hb : ∀ x ∈ lh, x < 2 ^ 32) : readHead (writeHead lh b) = .ok lh := by
  have hl' : lh.length ≤ 30 := hl
  have h0 : word (writeHead lh b) 0 = lh.length := by
    unfold writeHead
    rw [putBlocks_word_le lh 0 _ (Nat.le_refl 0), word_setWord_same _ _ (by omega)]
    exact Nat.mod_eq_of_lt (by omega)
  have hn : int32 (word (writeHead lh b) 0) = lh.length := by
    rw [h0]
    exact int32_small (by omega)
  unfold readHead
  rw [hn, if_pos (by exact_mod_cast hl), Int.toNat_natCast]
  refine congrArg Except.ok (ext_getElem (by simp) fun i hi hi' => ?_)
  rw [getElem_map, getElem_range]
  have hw := putBlocks_word lh 0 (setWord b 0 lh.length) (by omega) hi'
  rw [Nat.zero_add] at hw
  show word (putBlocks 0 lh (setWord b 0 lh.length)) (i + 1) = _
  rw [hw]
  exact Nat.mod_eq_of_lt (hb _ (getElem_mem hi'))

@[simp] lemma readHead_erased (b : Block) : readHead (writeHead [] b) = .ok [] :=
  readHead_writeHead b (Nat.zero_le _) nofun

lemma readHead_length {b : Block} {lh : List Nat} (h : readHead b = .ok lh) : lh.length ≤ LOGSIZE := by
  unfold readHead at h
  split at h
  · next hn =>
    rw [← Except.ok.inj h, length_map, length_range]
    exact Int.toNat_le.mpr hn
  · cases h

end Log
end Xv6
