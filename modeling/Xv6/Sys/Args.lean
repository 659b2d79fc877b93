import Xv6.Proc.Table
import Mathlib.Data.UInt

/-!
# The arguments of system calls

`fetchint`, `fetchstr`, `argint`, `argptr`, `argstr` and `argfd`, with the C types: addresses are `uint`, sizes and
descriptors are `int`. Every sum may wrap. With `sz` below `KERNBASE` none that passes its check does:
`arguments_inside`.
-/

namespace Xv6.Args
open Option

abbrev KERNBASE : UInt32 := 0x80000000

/-- what the checks read of the process; `F` is the type of `struct file *`. -/
structure Proc (F : Type) where
  sz : UInt32
  esp : UInt32
  mem : UInt32 → UInt8
  ofile : Nat → Option F

section
variable {F : Type} (p : Proc F)

/-- `*(int*)addr`. -/
def Proc.load (addr : UInt32) : Int32 :=
  ((p.mem addr).toUInt32 ||| (p.mem (addr + 1)).toUInt32 <<< 8 ||| (p.mem (addr + 2)).toUInt32 <<< 16 |||
    (p.mem (addr + 3)).toUInt32 <<< 24).toInt32

def fetchint (addr : UInt32) : Option Int32 :=
  if addr ≥ p.sz ∨ addr + 4 > p.sz then none else some (p.load addr)

/-- the loop of `fetchstr`, with at most `fuel` turns. -/
def fetchstrLoop : Nat → UInt32 → Option UInt32
  | 0, _ => none
  | fuel + 1, s => if s < p.sz then if p.mem s = 0 then some s else fetchstrLoop fuel (s + 1) else none

/-- the pointer and the length. -/
def fetchstr (addr : UInt32) : Option (UInt32 × Int32) :=
  if addr ≥ p.sz then none else
    (fetchstrLoop p (p.sz - addr).toNat addr).map fun s => (addr, (s - addr).toInt32)

/-- the address of the `n`th argument. -/
def argAddr (n : Int32) : UInt32 := p.esp + 4 + (4 * n).toUInt32

def argint (n : Int32) : Option Int32 := fetchint p (argAddr p n)

def argptr (n size : Int32) : Option UInt32 := do
  let i ← argint p n
  if size < 0 ∨ i.toUInt32 ≥ p.sz ∨ i.toUInt32 + size.toUInt32 > p.sz then none else some i.toUInt32

def argstr (n : Int32) : Option (UInt32 × Int32) := do
  let addr ← argint p n
  fetchstr p addr.toUInt32

def argfd (n : Int32) : Option (Int32 × F) := do
  let fd ← argint p n
  if fd < 0 ∨ fd ≥ .ofNat NOFILE then none else (p.ofile fd.toNatClampNeg).map (fd, ·)

end

/-- the `n` bytes at `a` are below `sz`. -/
def Inside (sz a : UInt32) (n : Nat) : Prop := a.toNat + n ≤ sz.toNat

/-- the characters from `a` on that are no NUL are `len` many. -/
def StrAt (mem : UInt32 → UInt8) (a : UInt32) (len : Nat) : Prop :=
  mem (a + UInt32.ofNat len) = 0 ∧ ∀ i < len, mem (a + UInt32.ofNat i) ≠ 0

variable {F : Type} {p : Proc F} {addr a : UInt32} {n size : Int32}

lemma toNat_toUInt32 {x : Int32} (h : 0 ≤ x) : x.toUInt32.toNat = x.toInt.toNat ∧ 0 ≤ x.toInt ∧ x.toInt < 2147483648 := by
  have h0 : 0 ≤ x.toInt := Int32.le_iff_toInt_le.mp h
  have e : x.toInt = x.toBitVec.toInt := rfl
  have e' : x.toUInt32.toNat = x.toBitVec.toNat := rfl
  rw [BitVec.toInt_eq_toNat_cond] at e
  omega

lemma toInt_toInt32 {x : UInt32} (h : x.toNat < 2 ^ 31) : x.toInt32.toInt = x.toNat := by
  have e : x.toInt32.toInt = x.toBitVec.toInt := rfl
  have e' : x.toNat = x.toBitVec.toNat := rfl
  rw [BitVec.toInt_eq_toNat_cond] at e
  omega

/-! ## the checks -/

section
variable (hsz : p.sz.toNat < 2 ^ 31)
include hsz

lemma fetchint_inside {v : Int32} (hv : fetchint p addr = some v) : Inside p.sz addr 4 := by
  unfold fetchint at hv
  split at hv
  · cases hv
  · rename_i hc
    rw [not_or, ge_iff_le, UInt32.not_le, gt_iff_lt, UInt32.not_lt, UInt32.lt_iff_toNat_lt, UInt32.le_iff_toNat_le,
      UInt32.toNat_add] at hc
    have e : (4 : UInt32).toNat = 4 := rfl
    unfold Inside
    omega

lemma argptr_inside (ha : argptr p n size = some a) :
    Inside p.sz (argAddr p n) 4 ∧ 0 ≤ size.toInt ∧ Inside p.sz a size.toInt.toNat := by
  obtain ⟨i, hi, ha⟩ := bind_eq_some_iff.mp ha
  refine ⟨fetchint_inside hsz hi, ?_⟩
  split at ha
  · cases ha
  · rename_i hc
    obtain rfl := some.inj ha
    rw [not_or, not_or, Int32.not_lt, ge_iff_le, UInt32.not_le, gt_iff_lt, UInt32.not_lt, UInt32.lt_iff_toNat_lt,
      UInt32.le_iff_toNat_le, UInt32.toNat_add] at hc
    -- both summands are below 2^31
    obtain ⟨e, h0, h1⟩ := toNat_toUInt32 hc.1
    unfold Inside
    omega

end

/-- the loop ends at the first NUL, and without one below `sz` it fails. -/
theorem fetchstrLoop_spec (fuel : Nat) : ∀ s, s.toNat + fuel = p.sz.toNat →
    (∀ e, fetchstrLoop p fuel s = some e → ∃ len < fuel, e = s + UInt32.ofNat len ∧ StrAt p.mem s len) ∧
    (fetchstrLoop p fuel s = none → ∀ i < fuel, p.mem (s + UInt32.ofNat i) ≠ 0) := by
  induction fuel with
  | zero => exact fun _ _ => ⟨fun e he => absurd he (by simp [fetchstrLoop]), fun _ i hi => absurd hi (Nat.not_lt_zero i)⟩
  | succ fuel ih =>
    intro s hs
    have hlt : s < p.sz := UInt32.lt_iff_toNat_lt.mpr (by omega)
    have hnext : (s + 1).toNat + fuel = p.sz.toNat := by
      have h1 := p.sz.toNat_lt
      have e : (1 : UInt32).toNat = 1 := rfl
      rw [UInt32.toNat_add]
      omega
    have hstep : ∀ i, s + 1 + UInt32.ofNat i = s + UInt32.ofNat (i + 1) := by
      intro i
      rw [UInt32.ofNat_add, UInt32.add_assoc, UInt32.add_comm (UInt32.ofNat i)]
      rfl
    have hzero : s + UInt32.ofNat 0 = s := UInt32.add_zero s
    -- a string from `s + 1` on, and a byte before it
    have hcons : ∀ k, p.mem s ≠ 0 → (∀ i < k, p.mem (s + 1 + UInt32.ofNat i) ≠ 0) →
        ∀ i < k + 1, p.mem (s + UInt32.ofNat i) ≠ 0 := by
      intro k h0 h i hi
      cases i with
      | zero => rwa [hzero]
      | succ i =>
        rw [← hstep]
        exact h i (by omega)
    rw [fetchstrLoop, if_pos hlt]
    by_cases h0 : p.mem s = 0
    · rw [if_pos h0]
      refine ⟨fun e he => ⟨0, by omega, ?_, ?_, fun i hi => absurd hi (Nat.not_lt_zero i)⟩,
        fun h => absurd h (some_ne_none s)⟩
      · rw [hzero]
        exact (some.inj he).symm
      · rwa [hzero]
    · rw [if_neg h0]
      obtain ⟨ih1, ih2⟩ := ih (s + 1) hnext
      refine ⟨fun e he => ?_, fun he => hcons fuel h0 (ih2 he)⟩
      obtain ⟨len, hlen, rfl, hnul, hs⟩ := ih1 e he
      rw [hstep] at hnul
      exact ⟨len + 1, by omega, hstep len, hnul, hcons len h0 hs⟩

lemma fetchstr_inside (hsz : p.sz.toNat < 2 ^ 31) {len : Int32} (h : fetchstr p addr = some (a, len)) :
    a = addr ∧ 0 ≤ len.toInt ∧ Inside p.sz a (len.toInt.toNat + 1) ∧ StrAt p.mem a len.toInt.toNat := by
  unfold fetchstr at h
  split at h
  · cases h
  · rename_i hc
    obtain ⟨e, he, h⟩ := map_eq_some_iff.mp h
    obtain ⟨rfl, rfl⟩ := Prod.mk.inj h
    rw [ge_iff_le, UInt32.not_le] at hc
    have hle := UInt32.le_of_lt hc
    rw [UInt32.lt_iff_toNat_lt] at hc
    rw [UInt32.toNat_sub_of_le _ _ hle] at he
    obtain ⟨k, hk, rfl, hs⟩ := (fetchstrLoop_spec _ addr (by omega)).1 e he
    have hsub : addr + UInt32.ofNat k - addr = UInt32.ofNat k := by
      rw [UInt32.add_comm, UInt32.add_sub_cancel]
    have hnat : (UInt32.ofNat k).toNat = k := by
      rw [UInt32.toNat_ofNat']
      omega
    have hint : (addr + UInt32.ofNat k - addr).toInt32.toInt = k := by
      rw [hsub, toInt_toInt32 (by omega), hnat]
    rw [hint]
    refine ⟨rfl, by omega, ?_, hs⟩
    unfold Inside
    omega

lemma argfd_open {fd : Int32} {f : F} (h : argfd p n = some (fd, f)) :
    0 ≤ fd ∧ fd < .ofNat NOFILE ∧ p.ofile fd.toNatClampNeg = some f := by
  obtain ⟨i, hi, h⟩ := bind_eq_some_iff.mp h
  split at h
  · cases h
  · rename_i hc
    obtain ⟨g, hg, h⟩ := map_eq_some_iff.mp h
    obtain ⟨rfl, rfl⟩ := Prod.mk.inj h
    rw [not_or, Int32.not_lt, ge_iff_le, Int32.not_le] at hc
    exact ⟨hc.1, hc.2, hg⟩

/-- **What the checks let through is inside the process.** The words read from the stack, the block of `argptr` and the
string with its NUL are below `sz`, for any `esp`, index and size; the length is that of the string; a descriptor is in
range and open. -/
theorem arguments_inside (p : Proc F) (h : p.sz < KERNBASE) :
    (∀ addr v, fetchint p addr = some v → Inside p.sz addr 4) ∧
    (∀ n v, argint p n = some v → Inside p.sz (argAddr p n) 4) ∧
    (∀ n size a, argptr p n size = some a →
      Inside p.sz (argAddr p n) 4 ∧ 0 ≤ size.toInt ∧ Inside p.sz a size.toInt.toNat) ∧
    (∀ addr a len, fetchstr p addr = some (a, len) →
      a = addr ∧ 0 ≤ len.toInt ∧ Inside p.sz a (len.toInt.toNat + 1) ∧ StrAt p.mem a len.toInt.toNat) ∧
    (∀ n a len, argstr p n = some (a, len) → Inside p.sz (argAddr p n) 4 ∧
      0 ≤ len.toInt ∧ Inside p.sz a (len.toInt.toNat + 1) ∧ StrAt p.mem a len.toInt.toNat) ∧
    (∀ n fd f, argfd p n = some (fd, f) → Inside p.sz (argAddr p n) 4 ∧
      0 ≤ fd ∧ fd < .ofNat NOFILE ∧ p.ofile fd.toNatClampNeg = some f) := by
  have hsz : p.sz.toNat < 2 ^ 31 := UInt32.lt_iff_toNat_lt.mp h
  refine ⟨fun _ _ => fetchint_inside hsz, fun _ _ => fetchint_inside hsz, fun _ _ _ => argptr_inside hsz,
    fun _ _ _ => fetchstr_inside hsz, fun n a len hs => ?_, fun n fd f hf => ?_⟩
  · obtain ⟨i, hi, hs⟩ := bind_eq_some_iff.mp hs
    exact ⟨fetchint_inside hsz hi, (fetchstr_inside hsz hs).2⟩
  · obtain ⟨i, hi, -⟩ := bind_eq_some_iff.mp hf
    exact ⟨fetchint_inside hsz hi, argfd_open hf⟩

/-- a process of 16 bytes of zeros. -/
def tiny : Proc Unit where
  sz := 16
  esp := 0
  mem := fun _ => 0
  ofile := fun _ => some ()

/-- its first argument, as a pointer to all 16 bytes, as an empty string and as a descriptor. -/
theorem arguments_inside_tiny : argptr tiny 0 16 = some 0 ∧ Inside tiny.sz 0 16 ∧ argstr tiny 0 = some (0, 0) ∧
    StrAt tiny.mem 0 0 ∧ argfd tiny 0 = some (0, ()) := by
  obtain ⟨-, -, hptr, -, hstr, -⟩ := arguments_inside tiny (by decide)
  exact ⟨by decide, (hptr 0 16 0 (by decide)).2.2, by decide, (hstr 0 0 0 (by decide)).2.2.2, by decide⟩

end Xv6.Args
