import Mathlib

/-!
# `memmove` and `memset` (`string.c`), and the `memmove` of `ulib.c`

Memory is one byte for each 32-bit address. A range is `dst + i` for `i < n`, so that an address is named by its
offset from `dst` and no sum is reduced by hand.

* `forward_apply`   what `*d++ = *s++` leaves, overlapping or not: the source repeats with the period `d - s`;
* `backward_apply`  what `*--d = *--s` leaves when it is right to go down;
* `stosb_apply`     what `rep stos` leaves.
-/

namespace Xv6.Bytes
open Function

abbrev Mem := UInt32 → UInt8

/-- `while(n-- > 0) *d++ = *s++`. -/
def forward (m : Mem) (d s : UInt32) : Nat → Mem
  | 0 => m
  | n + 1 => forward (update m d (m s)) (d + 1) (s + 1) n

/-- `while(n-- > 0) *--d = *--s`. -/
def backward (m : Mem) (d s : UInt32) : Nat → Mem
  | 0 => m
  | n + 1 => backward (update m (d - 1) (m (s - 1))) (d - 1) (s - 1) n

/-- `memmove` of `string.c`. -/
def memmove (m : Mem) (dst src n : UInt32) : Mem :=
  if src < dst ∧ src + n > dst then backward m (dst + n) (src + n) n.toNat
  else forward m dst src n.toNat

/-- `memmove` of `ulib.c`; its `n` is an `int`. -/
def ulibMemmove (m : Mem) (vdst vsrc : UInt32) (n : Int32) : Mem := forward m vdst vsrc n.toInt.toNat

/-- `rep stosb`. -/
def stosb (m : Mem) (addr : UInt32) (data : UInt32) : Nat → Mem
  | 0 => m
  | cnt + 1 => stosb (update m addr data.toUInt8) (addr + 1) data cnt

/-- a 32-bit store, little endian. -/
def store (m : Mem) (a w : UInt32) : Mem :=
  update (update (update (update m a w.toUInt8) (a + 1) (w >>> 8).toUInt8) (a + 2) (w >>> 16).toUInt8) (a + 3)
    (w >>> 24).toUInt8

/-- `rep stosl`. -/
def stosl (m : Mem) (addr : UInt32) (data : UInt32) : Nat → Mem
  | 0 => m
  | cnt + 1 => stosl (store m addr data) (addr + 4) data cnt

/-- `c &= 0xFF; (c<<24)|(c<<16)|(c<<8)|c`. -/
def replicate (c : UInt32) : UInt32 :=
  ((c &&& 0xFF) <<< 24) ||| ((c &&& 0xFF) <<< 16) ||| ((c &&& 0xFF) <<< 8) ||| (c &&& 0xFF)

/-- `memset`; `(int)dst%4` is the remainder of a signed division. -/
def memset (m : Mem) (dst : UInt32) (c : Int32) (n : UInt32) : Mem :=
  if dst.toInt32 % 4 = 0 ∧ n % 4 = 0 then stosl m dst (replicate c.toUInt32) (n / 4).toNat
  else stosb m dst c.toUInt32 n.toNat

variable {m : Mem} {d s x : UInt32} {n : Nat}

lemma toNat_sub_one (h : x ≠ 0) : (x - 1).toNat = x.toNat - 1 := by
  have : x.toNat ≠ 0 := fun e => h (UInt32.toNat_inj.mp e)
  have : x.toNat < 2 ^ 32 := x.toNat_lt
  rw [UInt32.toNat_sub]
  show (2 ^ 32 - 1 + x.toNat) % 2 ^ 32 = _
  omega

lemma mod_of_ne_zero (h : x ≠ 0) (p : UInt32) : x % p = if (x - 1) % p + 1 = p then 0 else (x - 1) % p + 1 := by
  have hpos : x.toNat ≠ 0 := fun e => h (UInt32.toNat_inj.mp e)
  have hlt : x.toNat < 2 ^ 32 := x.toNat_lt
  have hle := Nat.mod_le (x.toNat - 1) p.toNat
  have hsucc : ((x - 1) % p + 1).toNat = (x.toNat - 1) % p.toNat + 1 := by
    rw [UInt32.toNat_add, UInt32.toNat_mod, toNat_sub_one h]
    exact Nat.mod_eq_of_lt (show (x.toNat - 1) % p.toNat + 1 < 2 ^ 32 by omega)
  have hmod : x.toNat % p.toNat = ((x.toNat - 1) % p.toNat + 1) % p.toNat := by
    rw [Nat.mod_add_mod, Nat.sub_add_cancel (by omega)]
  apply UInt32.toNat_inj.mp
  rw [UInt32.toNat_mod, hmod]
  split
  · next e =>
    rw [← hsucc, e, Nat.mod_self]
    rfl
  · next e =>
    rw [hsucc]
    rcases Nat.eq_zero_or_pos p.toNat with h0 | h0
    · rw [h0, Nat.mod_zero]
    · have : (x.toNat - 1) % p.toNat + 1 ≠ p.toNat := fun h => e (UInt32.toNat_inj.mp (hsucc.trans h))
      exact Nat.mod_eq_of_lt (by have := Nat.mod_lt (x.toNat - 1) h0; omega)

/-- the byte at `d + x` is the one at `s + x`, with `x` reduced by what the loop has overwritten on its way. -/
theorem forward_apply (hn : n ≤ 2 ^ 32) :
    forward m d s n (d + x) = if x.toNat < n then m (s + x % (d - s)) else m (d + x) := by
  induction n generalizing m d s x with
  | zero => rfl
  | succ n ih =>
    have hx : d + x = (d + 1) + (x - 1) := by grind
    have hds : (d + 1) - (s + 1) = d - s := by grind
    show forward _ (d + 1) (s + 1) n (d + x) = _
    rw [hx, ih (by omega), hds, ← hx]
    by_cases h0 : x = 0
    · have e : ((0 : UInt32) - 1).toNat = 2 ^ 32 - 1 := rfl
      have e0 : (0 : UInt32).toNat = 0 := rfl
      rw [h0, if_neg (by omega), if_pos (by omega), UInt32.add_zero, update_self, UInt32.zero_mod, UInt32.add_zero]
    · have hpos : x.toNat ≠ 0 := fun e => h0 (UInt32.toNat_inj.mp e)
      have hne : d + x ≠ d := by grind
      have hiff : x.toNat - 1 < n ↔ x.toNat < n + 1 := by omega
      rw [toNat_sub_one h0, update_of_ne hne, mod_of_ne_zero h0]
      simp only [hiff]
      -- the source byte of this turn is the one just stored exactly when the offset comes round to 0
      by_cases e : (x - 1) % (d - s) + 1 = d - s
      · have hd : s + 1 + (x - 1) % (d - s) = d := by grind
        rw [if_pos e, hd, update_self, UInt32.add_zero]
      · have hd : s + 1 + (x - 1) % (d - s) ≠ d := by grind
        have hs : s + 1 + (x - 1) % (d - s) = s + ((x - 1) % (d - s) + 1) := by grind
        rw [if_neg e, update_of_ne hd, hs]

/-- going down is right as long as `s` lies `n` or more bytes above `d`, round the end of the address space. -/
theorem backward_apply (hn : n ≤ (s - d).toNat) : backward m (d + UInt32.ofNat n) (s + UInt32.ofNat n) n (d + x) =
      if x.toNat < n then m (s + x) else m (d + x) := by
  induction n generalizing m with
  | zero => rfl
  | succ n ih =>
    have hlt : n < 2 ^ 32 := by have := (s - d).toNat_lt; omega
    have hone : ∀ a : UInt32, a + UInt32.ofNat (n + 1) - 1 = a + UInt32.ofNat n := by
      intro a
      have := UInt32.ofNat_add n 1
      grind
    have hto : (UInt32.ofNat n).toNat = n := UInt32.toNat_ofNat_of_lt' hlt
    show backward _ (d + UInt32.ofNat (n + 1) - 1) (s + UInt32.ofNat (n + 1) - 1) n (d + x) = _
    rw [hone, hone, ih (by omega)]
    by_cases hx : x = UInt32.ofNat n
    · rw [hx, hto, if_neg (Nat.lt_irrefl n), if_pos n.lt_succ_self, update_self]
    · have hxn : x.toNat ≠ n := fun e => hx (UInt32.toNat_inj.mp (e.trans hto.symm))
      have hiff : x.toNat < n ↔ x.toNat < n + 1 := by omega
      have hd : d + x ≠ d + UInt32.ofNat n := by grind
      rw [update_of_ne hd, ← if_congr hiff rfl rfl]
      split
      · next h =>
        have hs : s + x ≠ d + UInt32.ofNat n := by
          intro e
          have e' : s - d = UInt32.ofNat n - x := by grind
          have hle : (UInt32.ofNat n - x).toNat = n - x.toNat := by
            rw [UInt32.toNat_sub_of_le _ _ (UInt32.le_iff_toNat_le.mpr (by omega)), hto]
          rw [e', hle] at hn
          omega
        rw [update_of_ne hs]
      · rfl

/-- where `d` is not inside the source range, no byte is read after it was overwritten. -/
theorem mod_sub_of_outside {n : UInt32} (hs : s.toNat + n.toNat ≤ 2 ^ 32)
    (h : ¬(s.toNat < d.toNat ∧ d.toNat < s.toNat + n.toNat)) (hx : x < n) : x % (d - s) = x := by
  have hx' := UInt32.lt_iff_toNat_lt.mp hx
  have hsub : (d - s).toNat = (2 ^ 32 - s.toNat + d.toNat) % 2 ^ 32 := UInt32.toNat_sub d s
  apply UInt32.toNat_inj.mp
  rw [UInt32.toNat_mod]
  by_cases e : d = s
  · rw [e, UInt32.sub_self]
    exact Nat.mod_zero _
  · have : d.toNat ≠ s.toNat := fun h => e (UInt32.toNat_inj.mp h)
    have := d.toNat_lt
    have := s.toNat_lt
    exact Nat.mod_eq_of_lt (by omega)

lemma memmove_apply {n : UInt32} (hd : d.toNat + n.toNat ≤ 2 ^ 32) (hs : s.toNat + n.toNat ≤ 2 ^ 32) :
    memmove m d s n (d + x) = if x < n then m (s + x) else m (d + x) := by
  have hn : n.toNat ≤ 2 ^ 32 := by omega
  have hsum : (s + n).toNat = (s.toNat + n.toNat) % 2 ^ 32 := UInt32.toNat_add s n
  unfold memmove
  simp only [gt_iff_lt, UInt32.lt_iff_toNat_lt, hsum]
  split
  · next h =>
    have hsub : (s - d).toNat = 2 ^ 32 - d.toNat + s.toNat := by
      rw [UInt32.toNat_sub]
      exact Nat.mod_eq_of_lt (show 2 ^ 32 - d.toNat + s.toNat < 2 ^ 32 by have := d.toNat_lt; omega)
    have := backward_apply (m := m) (s := s) (d := d) (x := x) (n := n.toNat) (by omega)
    rwa [UInt32.ofNat_toNat] at this
  · next h =>
    rw [forward_apply hn]
    split
    · next hx => rw [mod_sub_of_outside hs (by omega) (UInt32.lt_iff_toNat_lt.mpr hx)]
    · rfl

lemma stosb_apply {c : UInt32} (hn : n ≤ 2 ^ 32) :
    stosb m d c n (d + x) = if x.toNat < n then c.toUInt8 else m (d + x) := by
  induction n generalizing m d x with
  | zero => rfl
  | succ n ih =>
    have hx : d + x = (d + 1) + (x - 1) := by grind
    show stosb _ (d + 1) c n (d + x) = _
    rw [hx, ih (by omega), ← hx]
    by_cases h0 : x = 0
    · have e : ((0 : UInt32) - 1).toNat = 2 ^ 32 - 1 := rfl
      have e0 : (0 : UInt32).toNat = 0 := rfl
      rw [h0, if_neg (by omega), if_pos (by omega), UInt32.add_zero, update_self]
    · have hpos : x.toNat ≠ 0 := fun e => h0 (UInt32.toNat_inj.mp e)
      have hne : d + x ≠ d := by grind
      have hiff : x.toNat - 1 < n ↔ x.toNat < n + 1 := by omega
      rw [toNat_sub_one h0, update_of_ne hne]
      simp only [hiff]

lemma replicate_byte : ∀ b : UInt8, (replicate b.toUInt32).toUInt8 = b ∧ (replicate b.toUInt32 >>> 8).toUInt8 = b ∧
    (replicate b.toUInt32 >>> 16).toUInt8 = b ∧ (replicate b.toUInt32 >>> 24).toUInt8 = b := by
  decide +kernel

lemma replicate_low (c : UInt32) : replicate c = replicate c.toUInt8.toUInt32 := by
  have hand : ∀ c : UInt32, c &&& 0xFF = c % 256 := fun c =>
    UInt32.toNat_inj.mp ((UInt32.toNat_and c _).trans (Nat.and_two_pow_sub_one_eq_mod _ 8))
  have hc : c.toUInt8.toUInt32 % 256 = c % 256 := UInt32.toNat_inj.mp (Nat.mod_mod c.toNat 256)
  unfold replicate
  rw [hand, hand, hc]

/-- words of one byte, four times over, are bytes. -/
theorem stosl_replicate (c : UInt32) : stosl m d (replicate c) n = stosb m d c (4 * n) := by
  induction n generalizing m d with
  | zero => rfl
  | succ n ih =>
    have h2 : d + 1 + 1 = d + 2 := by grind
    have h3 : d + 2 + 1 = d + 3 := by grind
    have h4 : d + 3 + 1 = d + 4 := by grind
    obtain ⟨b0, b1, b2, b3⟩ := replicate_byte c.toUInt8
    rw [← replicate_low] at b0 b1 b2 b3
    simp only [stosl, Nat.mul_succ, stosb, ih, store, b0, b1, b2, b3, h2, h3, h4]

lemma stosl_replicate_of_mod {n : UInt32} (h : n % 4 = 0) (c : UInt32) :
    stosl m d (replicate c) (n / 4).toNat = stosb m d c n.toNat := by
  have hn : n.toNat % 4 = 0 := congrArg UInt32.toNat h
  have hdiv : (n / 4).toNat = n.toNat / 4 := UInt32.toNat_div n 4
  rw [stosl_replicate, hdiv, Nat.mul_div_cancel' (Nat.dvd_of_mod_eq_zero hn)]

lemma memset_eq (d : UInt32) (c : Int32) (n : UInt32) : memset m d c n = stosb m d c.toUInt32 n.toNat := by
  unfold memset
  split
  · next h => exact stosl_replicate_of_mod h.2 _
  · rfl

/-- **`memmove` and `memset` are exact on every layout**: the bytes of the destination range are the bytes the source
range had, or the low byte of `c`; every other byte is as before; the words of `memset` store what the bytes do. -/
theorem memmove_memset_exact (m : Mem) (dst src n : UInt32) (c : Int32) (hd : dst.toNat + n.toNat ≤ 2 ^ 32)
    (hs : src.toNat + n.toNat ≤ 2 ^ 32) :
    (∀ i, i < n → memmove m dst src n (dst + i) = m (src + i)) ∧
    (∀ a, (∀ i, i < n → a ≠ dst + i) → memmove m dst src n a = m a) ∧
    (∀ i, i < n → memset m dst c n (dst + i) = c.toUInt32.toUInt8) ∧
    (∀ a, (∀ i, i < n → a ≠ dst + i) → memset m dst c n a = m a) ∧
    (n % 4 = 0 → stosl m dst (replicate c.toUInt32) (n / 4).toNat = stosb m dst c.toUInt32 n.toNat) := by
  have hset : ∀ x, memset m dst c n (dst + x) = if x < n then c.toUInt32.toUInt8 else m (dst + x) := fun x => by
    rw [memset_eq, stosb_apply (by omega)]
    rfl
  have hout : ∀ a, (∀ i, i < n → a ≠ dst + i) → ∃ x, a = dst + x ∧ ¬x < n := fun a h =>
    ⟨a - dst, by grind, fun hx => h _ hx (by grind)⟩
  refine ⟨fun i hi => ?_, fun a ha => ?_, fun i hi => ?_, fun a ha => ?_, fun hn => stosl_replicate_of_mod hn _⟩
  · rw [memmove_apply hd hs, if_pos hi]
  · obtain ⟨x, rfl, hx⟩ := hout a ha
    rw [memmove_apply hd hs, if_neg hx]
  · rw [hset, if_pos hi]
  · obtain ⟨x, rfl, hx⟩ := hout a ha
    rw [hset, if_neg hx]

theorem memmove_memset_exact_overlap : memmove UInt32.toUInt8 17 16 4 19 = 18 :=
  (memmove_memset_exact UInt32.toUInt8 17 16 4 0 (by decide) (by decide)).1 2 (by decide)

/-- **The two `memmove`s agree exactly when the source repeats under an upward move**: `ulib.c` only goes up, so where
`dst` lies inside the source range the bytes of the source must have the period `dst - src`. -/
theorem ulib_memmove_agrees_iff (m : Mem) (dst src : UInt32) (n : Int32) (h0 : 0 ≤ n)
    (hd : dst.toNat + n.toUInt32.toNat ≤ 2 ^ 32) (hs : src.toNat + n.toUInt32.toNat ≤ 2 ^ 32) :
    ulibMemmove m dst src n = memmove m dst src n.toUInt32 ↔
      (src < dst → dst.toNat < src.toNat + n.toUInt32.toNat →
        ∀ i, i < n.toUInt32 → m (src + i) = m (src + i % (dst - src))) := by
  have hn : n.toInt.toNat = n.toUInt32.toNat := BitVec.toNat_toInt_of_sle h0
  have hmove := fun x => memmove_apply (m := m) (x := x) hd hs
  have hup : ∀ x, ulibMemmove m dst src n (dst + x) =
      if x < n.toUInt32 then m (src + x % (dst - src)) else m (dst + x) := fun x => by
    unfold ulibMemmove
    rw [hn, forward_apply (by omega)]
    rfl
  constructor
  · intro h _ _ i hi
    have := congrFun h (dst + i)
    rwa [hmove, hup, if_pos hi, if_pos hi, eq_comm] at this
  · intro h
    funext a
    obtain ⟨x, rfl⟩ : ∃ x, a = dst + x := ⟨a - dst, by grind⟩
    rw [hmove, hup]
    by_cases hx : x < n.toUInt32
    · rw [if_pos hx, if_pos hx]
      by_cases hin : src.toNat < dst.toNat ∧ dst.toNat < src.toNat + n.toUInt32.toNat
      · exact (h (UInt32.lt_iff_toNat_lt.mpr hin.1) hin.2 x hx).symm
      · rw [mod_sub_of_outside hs hin hx]
    · rw [if_neg hx, if_neg hx]

theorem ulib_memmove_agrees_apart : ulibMemmove UInt32.toUInt8 32 16 8 = memmove UInt32.toUInt8 32 16 8 :=
  (ulib_memmove_agrees_iff UInt32.toUInt8 32 16 8 (by decide) (by decide) (by decide)).mpr
    fun _ h => absurd h (by decide)

/-- moved up by one byte, `ulib.c` writes the first byte everywhere. -/
theorem ulib_memmove_repeats :
    ulibMemmove UInt32.toUInt8 17 16 2 18 = 16 ∧ memmove UInt32.toUInt8 17 16 2 18 = 17 := by
  decide +kernel

end Xv6.Bytes
