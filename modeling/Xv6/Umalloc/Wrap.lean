import Xv6.Umalloc.Integrity
import Xv6.Vm.Grow

/-!
# `malloc` and the kernel

The answer of `sbrk` is now that of `growproc`, which gets the number of bytes as an `int`. The heap is that of
`Umalloc.search`; a header that is written where no page is mapped ends the program (`Fault.page`).

`nbytes + 7` wraps around at the end of the `uint`s, and `nu * sizeof(Header)` is negative from `2^31` on, which makes
the process smaller. Below, `malloc` is right: `malloc_right_iff`.
-/

namespace Xv6.Umalloc.Sys
open Lib Option
open Vm (Link Present PGSIZE KERNBASE Space Covers)

inductive Fault where
  | kernel (e : Vm.Fault)
  | page
  | fuel

structure Proc where
  heap : Heap
  sz : Nat
  mem : Vm.Mem

section
variable (L : Link) (pd base : Nat) {nbytes : Nat}

/-- `sys_sbrk`: the size before the call, or -1. -/
def sbrk (s : Proc) (n : Int) : Except Fault (Proc × Option Nat) :=
  match Vm.growproc L pd s.sz n s.mem with
  | .error e => .error (.kernel e)
  | .ok ((r, sz), m) => .ok (⟨s.heap, sz, m⟩, if r < 0 then none else some s.sz)

/-- `nu * sizeof(Header)`, a `uint`, as the `int` that `sbrk` gets. -/
def bytes (nu : Nat) : Int := (BitVec.ofNat 32 (8 * nu)).toInt

def morecore (fuel : Nat) (s : Proc) (nu : Nat) : Except Fault (Proc × Nat) :=
  match sbrk L pd s (bytes (request nu)) with
  | .error e => .error e
  | .ok (s, none) => .ok (s, 0)
  | .ok (s, some p) =>
    -- `hp->s.size = nu`
    if Present (s.mem.pte pd ((p + 4) / PGSIZE)) then
      match free fuel (grow s.heap p (request nu)) (plus p 1) with
      | none => .error .fuel
      | some h => .ok (⟨h, s.sz, s.mem⟩, h.freep)
    else .error .page

/-- the loop of `malloc`. -/
def search (nunits : Nat) : Nat → Proc → Nat → Nat → Except Fault (Proc × Nat)
  | 0, _, _, _ => .error .fuel
  | n + 1, s, prevp, p =>
    if (s.heap.mem p).size ≥ nunits then
      .ok (⟨(take s.heap nunits prevp p).1, s.sz, s.mem⟩, (take s.heap nunits prevp p).2)
    else if p = s.heap.freep then
      match morecore L pd n s nunits with
      | .error e => .error e
      | .ok (s, p) => if p = 0 then .ok (s, 0) else search nunits n s p (s.heap.mem p).ptr
    else search nunits n s p (s.heap.mem p).ptr

def malloc (fuel : Nat) (s : Proc) (nbytes : Nat) : Except Fault (Proc × Nat) :=
  let h := init base s.heap
  search L pd (unitsFor nbytes) fuel ⟨h, s.sz, s.mem⟩ h.freep (h.mem h.freep).ptr

end

/-! ## the answer of the kernel -/

variable {L : Link} {D : Nat → Prop} {pd base nunits n prevp p r sz sz' : Nat} {h h' : Heap} {m m' : Vm.Mem}
  {a : Option Nat}

lemma take_top : (take h nunits prevp p).1.top = h.top := by
  unfold take
  split <;> rfl

lemma free_top {fuel ap : Nat} (hf : free fuel h ap = some h') : h'.top = h.top := by
  obtain ⟨p, -, rfl⟩ := map_eq_some_iff.mp hf
  rfl

variable (L pd sz m) in
lemma search_of_nil (hs : Umalloc.search base nunits n h [] prevp p = some (h', r)) :
    search L pd nunits n ⟨h, sz, m⟩ prevp p = .ok (⟨h', sz, m⟩, r) ∧ h'.top = h.top := by
  induction n generalizing prevp p with
  | zero => cases hs
  | succ n ih =>
    unfold Umalloc.search at hs
    unfold search
    dsimp only
    by_cases hfit : (h.mem p).size ≥ nunits
    · rw [if_pos hfit] at hs ⊢
      have e : take h nunits prevp p = (h', r) := some.inj hs
      have htop := @take_top nunits prevp p h
      rw [e] at htop ⊢
      exact ⟨rfl, htop⟩
    · rw [if_neg hfit] at hs ⊢
      by_cases hp : p = h.freep
      · rw [if_pos hp] at hs
        cases hs
      · rw [if_neg hp] at hs ⊢
        exact ih hs

/-- `sbrk` is called at most once, and `a` is what it returns. -/
theorem search_of_answer (hs : Umalloc.search base nunits n h [a] prevp p = some (h', r))
    (hk : sbrk L pd ⟨h, sz, m⟩ (bytes (request nunits)) = .ok (⟨h, sz', m'⟩, a))
    (hpage : ∀ q, a = some q → Present (m'.pte pd ((q + 4) / PGSIZE))) :
    (search L pd nunits n ⟨h, sz, m⟩ prevp p = .ok (⟨h', sz, m⟩, r) ∧ h'.top = h.top) ∨
    (search L pd nunits n ⟨h, sz, m⟩ prevp p = .ok (⟨h', sz', m'⟩, r) ∧
      (a = none ∧ h' = h ∧ r = 0 ∨ ∃ q, a = some q ∧ h'.top = q + 8 * request nunits)) := by
  induction n generalizing prevp p with
  | zero => cases hs
  | succ n ih =>
    unfold Umalloc.search at hs
    unfold search
    dsimp only
    by_cases hfit : (h.mem p).size ≥ nunits
    · rw [if_pos hfit] at hs ⊢
      have e : take h nunits prevp p = (h', r) := some.inj hs
      have htop := @take_top nunits prevp p h
      rw [e] at htop ⊢
      exact .inl ⟨rfl, htop⟩
    · rw [if_neg hfit] at hs ⊢
      by_cases hp : p = h.freep
      · rw [if_pos hp] at hs ⊢
        right
        unfold morecore
        rw [hk]
        cases a with
        | none =>
          obtain ⟨rfl, rfl⟩ := Prod.mk.inj (some.inj hs)
          exact ⟨rfl, .inl ⟨rfl, rfl, rfl⟩⟩
        | some q =>
          dsimp only at hs ⊢
          rw [if_pos (hpage q rfl)]
          by_cases hq : Fresh base h (request nunits) q
          case neg =>
            have hsb : Umalloc.sbrk base h (request nunits) (some q) = none := if_neg hq
            simp only [Umalloc.morecore, hsb] at hs
            cases hs
          have hsb : Umalloc.sbrk base h (request nunits) (some q) = some (some q) := if_pos hq
          simp only [Umalloc.morecore, hsb] at hs
          cases hf : free n (grow h q (request nunits)) (plus q 1) with
          | none =>
            rw [hf] at hs
            cases hs
          | some h1 =>
            simp only [hf, map_some] at hs ⊢
            have htop : h1.top = q + 8 * request nunits := free_top hf
            by_cases h0 : h1.freep = 0
            · rw [if_pos h0] at hs ⊢
              obtain ⟨rfl, rfl⟩ := Prod.mk.inj (some.inj hs)
              exact ⟨rfl, .inr ⟨q, rfl, htop⟩⟩
            · rw [if_neg h0] at hs ⊢
              obtain ⟨hrun, ht⟩ := search_of_nil L pd sz' m' hs
              exact ⟨hrun, .inr ⟨q, rfl, ht.trans htop⟩⟩
      · rw [if_neg hp] at hs ⊢
        exact ih hs

/-! ## sizes -/

/-- the number of units is enough, and `sbrk` gets the number of bytes. -/
def NoLoss (nbytes : Nat) : Prop :=
  nbytes + 8 ≤ 8 * unitsFor nbytes ∧ bytes (request (unitsFor nbytes)) = 8 * request (unitsFor nbytes)

lemma bytes_eq_iff {nu : Nat} : bytes nu = 8 * nu ↔ 8 * nu < 2 ^ 31 := by
  unfold bytes
  rw [BitVec.toInt_eq_toNat_cond, BitVec.toNat_ofNat]
  omega

lemma noLoss_iff (hn : nbytes < UINT) : NoLoss nbytes ↔ nbytes ≤ 2 ^ 31 - 16 := by
  unfold NoLoss
  rw [bytes_eq_iff]
  unfold request unitsFor
  unfold UINT at hn ⊢
  split
  all_goals omega

/-! ## `malloc` -/

/-- a process whose heap and address space are in order. Its size is a multiple of 8 (`aligned`), as
it is not after `sbrk(1)`. -/
structure Valid (L : Link) (D : Nat → Prop) (pd base : Nat) (s : Proc) : Prop where
  heap : Inv base s.heap
  space : Space L D s.mem pd
  covers : Covers s.mem pd s.sz
  size : s.sz < KERNBASE
  base : base + 8 ≤ s.sz
  top : s.heap.top ≤ s.sz
  aligned : s.sz % 8 = 0

/-- what `malloc(nbytes)` may do. -/
def Served (L : Link) (D : Nat → Prop) (pd base nbytes : Nat) (s s' : Proc) (r : Nat) : Prop :=
  Space L D s'.mem pd ∧ Covers s'.mem pd s'.sz ∧ s'.sz < KERNBASE ∧
    (r = 0 ∧ s'.heap = init base s.heap ∧ s'.sz = s.sz ∨
      ∃ F b, Ok base s'.heap F (b :: s.heap.live.map blockOf) ∧ r = b.addr + 8 ∧ r + nbytes ≤ b.limit ∧ b.limit ≤ s'.sz)

def Right (base nbytes : Nat) : Prop := ∀ L D pd s, Valid L D pd base s →
  ∃ N, ∀ fuel, N ≤ fuel → ∃ s' r, malloc L pd base fuel s nbytes = .ok (s', r) ∧ Served L D pd base nbytes s s' r

lemma covers_of_map (hc : Covers m pd sz) (h : ∀ v, v < Vm.UPAGES → m'.map pd v = m.map pd v) : Covers m' pd sz := by
  intro v hv
  have e := h v hv
  rw [← hc v hv, ← not_iff_not, ← Vm.map_none, ← Vm.map_none, e]

lemma right_of_noLoss (hb : 0 < base) (hn : NoLoss nbytes) : Right base nbytes := by
  intro L D pd s hv
  obtain ⟨hunits, hbytes⟩ := hn
  obtain ⟨⟨⟨F, ho⟩, -⟩, hlive, htop⟩ := hv.heap.init hb
  refine ⟨2 * F.length + 3, fun fuel hfuel => ?_⟩
  unfold malloc
  dsimp only
  generalize hk : request (unitsFor nbytes) = k at hbytes
  have hk0 : 0 < k := by
    rw [← hk]
    unfold request
    split
    all_goals omega
  have hk1 : 8 * k < 2 ^ 31 := bytes_eq_iff.mp hbytes
  have hsz : s.sz < 2 ^ 31 := hv.size
  have htop' := hv.top
  have hbase := hv.base
  have hal := hv.aligned
  -- the answer of the kernel, if it is asked
  obtain ⟨⟨r1, sz'⟩, m', hgrow, hlt, hsp, hex⟩ := Vm.ok_of_wp
    (Vm.wp_grow (n := 8 * k) hv.space hv.covers hv.size (by omega) (by omega))
  have hcall : sbrk L pd ⟨init base s.heap, s.sz, s.mem⟩ (bytes k) =
      .ok (⟨init base s.heap, sz', m'⟩, if r1 < 0 then none else some s.sz) := by
    unfold sbrk
    rw [hbytes, hgrow]
  have hc' : Covers m' pd sz' := by
    rcases hex with ⟨-, -, hc, -⟩ | ⟨-, rfl, hmap, -⟩
    · exact hc
    · exact covers_of_map hv.covers hmap
  have hans : ∀ q, (if r1 < 0 then none else some s.sz) = some q → q = s.sz ∧ sz' = s.sz + 8 * k := by
    intro q hq
    rcases hex with ⟨rfl, hadd, -⟩ | ⟨rfl, -⟩
    · have hadd : (sz' : Int) = s.sz + 8 * k := hadd
      exact ⟨(some.inj hq).symm, by omega⟩
    · cases hq
  have hnone : (if r1 < 0 then none else some s.sz) = none → sz' = s.sz := by
    intro hq
    rcases hex with ⟨rfl, -⟩ | ⟨-, e, -⟩
    · cases hq
    · exact e
  generalize (if r1 < 0 then none else some s.sz) = a at hcall hans hnone
  rcases ho.search_eq hb [a] (@unitsFor_pos nbytes) hfuel with ⟨h', r, hrun, hleaves⟩ | ⟨-, hno⟩
  case inr =>
    refine absurd ⟨a, [], rfl, fun q hq => ?_⟩ hno
    obtain ⟨rfl, -⟩ := hans q hq
    rw [hk]
    exact ⟨hal, hbase, by omega, by unfold UINT; omega⟩
  have hpage : ∀ q, a = some q → Present (m'.pte pd ((q + 4) / PGSIZE)) := by
    intro q hq
    obtain ⟨rfl, hadd⟩ := hans q hq
    refine (hc' _ ?_).mpr ?_
    · show (s.sz + 4) / 4096 < 2 ^ 19
      omega
    · show 4096 * ((s.sz + 4) / 4096) < sz'
      omega
  have hblock : ∀ b F', Ok base h' F' (b :: (init base s.heap).live.map blockOf) → b.size = unitsFor nbytes →
      ∀ sz, h'.top ≤ sz → b.addr + 8 + nbytes ≤ b.limit ∧ b.limit ≤ sz := by
    intro b F' hok hsize sz hle
    have hhigh := (hok.taken b List.mem_cons_self).high
    unfold Block.limit at hhigh ⊢
    omega
  rcases search_of_answer hrun (hk ▸ hcall) hpage with ⟨hsys, ht⟩ | ⟨hsys, ht⟩
  · refine ⟨_, r, hsys, hv.space, hv.covers, hv.size, ?_⟩
    rcases hleaves with ⟨hr, rfl⟩ | ⟨F', b, hok, hsize, hr, -⟩
    · exact .inl ⟨hr, rfl, rfl⟩
    · obtain ⟨h1, h2⟩ := hblock b F' hok hsize s.sz (by omega)
      exact .inr ⟨F', b, hlive ▸ hok, hr, by omega, h2⟩
  · refine ⟨_, r, hsys, hsp, hc', hlt, ?_⟩
    rcases ht with ⟨ha, rfl, rfl⟩ | ⟨q, hq, ht⟩
    · exact .inl ⟨rfl, rfl, hnone ha⟩
    · obtain ⟨rfl, hadd⟩ := hans q hq
      rw [hk] at ht
      rcases hleaves with ⟨hr, rfl⟩ | ⟨F', b, hok, hsize, hr, -⟩
      · omega
      · obtain ⟨h1, h2⟩ := hblock b F' hok hsize sz' (by omega)
        exact .inr ⟨F', b, hlive ▸ hok, hr, by omega, h2⟩

/-- **When `malloc` never returns a block that is too small.** For every process whose heap is in order
and whose size is a multiple of 8 (it is not after `sbrk(1)`; such processes are left out),
`malloc(nbytes)` ends; it returns 0 and leaves the heap and the size as they are, or a block of
`nbytes` bytes at least in the memory of the process; and no size is lost: if and only if `nbytes`
is at most `2^31 - 16`. -/
theorem malloc_right_iff (base nbytes : Nat) (hb : 0 < base) (hn : nbytes < UINT) :
    NoLoss nbytes ∧ Right base nbytes ↔ nbytes ≤ 2 ^ 31 - 16 :=
  ⟨fun h => (noLoss_iff hn).mp h.1, fun h => ⟨(noLoss_iff hn).mpr h, right_of_noLoss hb ((noLoss_iff hn).mpr h)⟩⟩

/-- the first `malloc` of a process with one page. -/
theorem malloc_right_iff_onePage : NoLoss 100 ∧ ∃ N, ∀ fuel, N ≤ fuel → ∃ s' r,
    malloc Vm.stock 300 1000 fuel ⟨boot fun _ => ⟨0, 0⟩, 4096, Vm.onePage⟩ 100 = .ok (s', r) ∧
      Served Vm.stock Vm.fourPages 300 1000 100 ⟨boot fun _ => ⟨0, 0⟩, 4096, Vm.onePage⟩ s' r := by
  obtain ⟨h1, h2⟩ := (malloc_right_iff 1000 100 (by decide) (by decide)).mpr (by decide)
  exact ⟨h1, h2 _ _ _ _ ⟨Inv.boot, Vm.onePage_space, Vm.onePage_covers, by decide, by decide, by decide, by decide⟩⟩

/-- `malloc(100)`, and then `malloc(0xFFFFFFFF)` returns a block that is only a header: its first byte is the header of
the other block. -/
theorem malloc_wraps_around : ∃ tr h, Path (step 1000) (boot fun _ => ⟨0, 0⟩) tr h ∧ h.live = [(36760, 100)] ∧
    unitsFor 0xFFFFFFFF = 1 ∧ ∀ L pd sz m, ∃ s', malloc L pd 1000 10 ⟨h, sz, m⟩ 0xFFFFFFFF = .ok (s', 36752) ∧
      (s'.heap.mem 36744).size = 1 ∧ header 36752 = 36744 ∧ header 36760 = 36752 := by
  have run : runsTo (step 1000) (boot fun _ => ⟨0, 0⟩) [.malloc 100 [some 4096] 10]
      (fun _ h => h.live == [(36760, 100)] && (Umalloc.malloc 1000 10 h 0xFFFFFFFF []).any fun x =>
        x.2 == 36752 && (x.1.mem 36744).size == 1) = true := by decide +kernel
  obtain ⟨tr, h, hp, hh⟩ := Path.of_runsTo run
  simp only [Bool.and_eq_true, beq_iff_eq, any_eq_true] at hh
  obtain ⟨hlive, ⟨h', r⟩, hrun, rfl, hsize⟩ := hh
  refine ⟨tr, h, hp, hlive, by decide, fun L pd sz m => ?_⟩
  exact ⟨⟨h', sz, m⟩, (search_of_nil L pd sz m hrun).1, hsize, by decide, by decide⟩

end Xv6.Umalloc.Sys
