import Xv6.Lib.Words
import Xv6.Lib.Wp
import Xv6.Lib.Places

/-!
# Physical pages and page tables (`kalloc.c`, `vm.c`, `mmu.h`, `memlayout.h`)

Physical memory is a map from page numbers to pages of 1024 words. Page directories and page tables are pages like all
others, so that nothing in the model keeps them apart from user memory, or from each other.

* A pointer to a page, of the kernel, is its page number: `V2P` and `P2V` only add and subtract `KERNBASE`. A null
  pointer is `none`.
* A virtual address and a size are numbers below `2 ^ 32`; where the code can wrap around, `u32` says so.
* `kmem.freelist` is the list of the free pages; the links between them, in the pages, are left out.
* A pointer to an entry of a page table (`pte_t*`) is the page and the index.
* `Fault` is a `panic`, a null pointer that is followed, an index outside its array, or a loop that does not end: the
  loops over addresses get as many turns as there are virtual pages.
-/

namespace Xv6.Vm
open Lib

/-! ## constants -/

abbrev PGSIZE : Nat := 4096
abbrev NPDENTRIES : Nat := 1024
abbrev EXTMEM : Nat := 0x100000
abbrev PHYSTOP : Nat := 0xE000000
abbrev DEVSPACE : Nat := 0xFE000000
abbrev KERNBASE : Nat := 0x80000000
abbrev KERNLINK : Nat := KERNBASE + EXTMEM

abbrev PTE_P : Nat := 1
abbrev PTE_W : Nat := 2
abbrev PTE_U : Nat := 4

/-- the number of virtual pages. -/
abbrev NPAGES : Nat := 2 ^ 20

/-- `kernel.ld`: where the data segment of the kernel starts, on a page boundary, and where the kernel ends. -/
structure Link where
  data : Nat
  kend : Nat
  aligned : data % PGSIZE = 0
  data_gt : KERNLINK < data
  data_le : data ≤ kend
  kend_lt : kend < KERNBASE + PHYSTOP

/-- a page that `freerange` gives to the allocator. -/
def Link.Page (L : Link) (p : Nat) : Prop := L.kend ≤ KERNBASE + PGSIZE * p ∧ PGSIZE * p < PHYSTOP

/-! ## addresses -/

/-- conversion to `uint`. -/
def u32 (x : Nat) : Nat := x % 2 ^ 32

def PDX (va : Nat) : Nat := va / 2 ^ 22 % 1024

def PTX (va : Nat) : Nat := va / 2 ^ 12 % 1024

def PGROUNDUP (sz : Nat) : Nat := u32 (sz + (PGSIZE - 1)) / PGSIZE * PGSIZE

def PGROUNDDOWN (a : Nat) : Nat := a / PGSIZE * PGSIZE

/-- `PGADDR(d, 0, 0)` -/
def PGADDR (d : Nat) : Nat := u32 (d * 2 ^ 22)

/-- `PTE_ADDR(pte)`, as a page number. -/
def pteAddr (pte : Nat) : Nat := pte / PGSIZE

/-- `PTE_FLAGS(pte)` -/
def pteFlags (pte : Nat) : Nat := pte % PGSIZE

/-! ## memory -/

abbrev Frame := Bytes 1024

structure Mem where
  frame : Nat → Frame
  freelist : List Nat

inductive Fault where
  | panic (msg : String)
  | null
  | loop
  | index
  deriving DecidableEq, Repr

abbrev M := StateT Mem (Except Fault)

def Mem.set (m : Mem) (p : Nat) (b : Frame) : Mem := { m with frame := Function.update m.frame p b }

def Mem.store (m : Mem) (p i w : Nat) : Mem := m.set p (setWord (m.frame p) i w)

def load (p i : Nat) : M Nat := do
  let m ← get
  pure (word (m.frame p) i)

def store (p i w : Nat) : M Unit := modify fun m => m.store p i w

/-- `memset(v, c, PGSIZE)` -/
def memset (p : Nat) (c : UInt8) : M Unit := modify fun m => m.set p fun _ => c

/-! ## `kalloc.c` -/

variable (L : Link)

/-- fills the page with junk. -/
def kfree (p : Nat) : M Unit :=
  if KERNBASE + PGSIZE * p < L.kend ∨ PHYSTOP ≤ PGSIZE * p then throw (.panic "kfree")
  else do
    memset p 1
    modify fun m => { m with freelist := p :: m.freelist }

def kalloc : M (Option Nat) := do
  let m ← get
  match m.freelist with
  | [] => pure none
  | p :: l => do
    set { m with freelist := l }
    pure (some p)

/-! ## page tables -/

def walkpgdir (pgdir va : Nat) (alloc : Bool) : M (Option (Nat × Nat)) := do
  let pde ← load pgdir (PDX va)
  if pde &&& PTE_P ≠ 0 then pure (some (pteAddr pde, PTX va))
  else if alloc = false then pure none
  else do
    let r ← kalloc
    match r with
    | none => pure none
    | some pgtab => do
      memset pgtab 0
      store pgdir (PDX va) (PGSIZE * pgtab ||| PTE_P ||| PTE_W ||| PTE_U)
      pure (some (pgtab, PTX va))

/-- the loop of `mappages`; `false` is -1. -/
def mapLoop (pgdir last perm : Nat) : Nat → Nat → Nat → M Bool
  | 0, _, _ => throw .loop
  | fuel + 1, a, pa => do
    let r ← walkpgdir pgdir a true
    match r with
    | none => pure false
    | some (t, i) => do
      let pte ← load t i
      if pte &&& PTE_P ≠ 0 then throw (.panic "remap")
      else do
        store t i (pa ||| perm ||| PTE_P)
        if a = last then pure true
        else mapLoop pgdir last perm fuel (u32 (a + PGSIZE)) (u32 (pa + PGSIZE))

def mappages (pgdir va size pa perm : Nat) : M Bool :=
  mapLoop pgdir (PGROUNDDOWN (u32 (u32 (va + size) + (2 ^ 32 - 1)))) perm NPAGES (PGROUNDDOWN va) pa

/-! ## user memory -/

/-- where the loop of `deallocuvm` goes on after an address without a page table:
`a = PGADDR(PDX(a) + 1, 0, 0) - PGSIZE`, and then `a += PGSIZE`. -/
def skip (a : Nat) : Nat := u32 (u32 (PGADDR (PDX a + 1) + (2 ^ 32 - PGSIZE)) + PGSIZE)

/-- the loop of `deallocuvm`: an absent page table is jumped over. -/
def deallocLoop (pgdir oldsz : Nat) : Nat → Nat → M Unit
  | 0, _ => throw .loop
  | fuel + 1, a =>
    if a < oldsz then do
      let r ← walkpgdir pgdir a false
      match r with
      | none => deallocLoop pgdir oldsz fuel (skip a)
      | some (t, i) => do
        let pte ← load t i
        if pte &&& PTE_P ≠ 0 then
          if pteAddr pte = 0 then throw (.panic "kfree")
          else do
            kfree L (pteAddr pte)
            store t i 0
            deallocLoop pgdir oldsz fuel (u32 (a + PGSIZE))
        else deallocLoop pgdir oldsz fuel (u32 (a + PGSIZE))
    else pure ()

def deallocuvm (pgdir oldsz newsz : Nat) : M Nat :=
  if oldsz ≤ newsz then pure oldsz
  else do
    deallocLoop L pgdir oldsz NPAGES (PGROUNDUP newsz)
    pure newsz

/-- the loop of `allocuvm`; `false` is the error. -/
def allocLoop (pgdir oldsz newsz : Nat) : Nat → Nat → M Bool
  | 0, _ => throw .loop
  | fuel + 1, a =>
    if a < newsz then do
      let r ← kalloc
      match r with
      | none => do
        let _ ← deallocuvm L pgdir newsz oldsz
        pure false
      | some mem => do
        memset mem 0
        let ok ← mappages pgdir a PGSIZE (PGSIZE * mem) (PTE_W ||| PTE_U)
        if ok = false then do
          let _ ← deallocuvm L pgdir newsz oldsz
          kfree L mem
          pure false
        else allocLoop pgdir oldsz newsz fuel (u32 (a + PGSIZE))
    else pure true

def allocuvm (pgdir oldsz newsz : Nat) : M Nat :=
  if KERNBASE ≤ newsz then pure 0
  else if newsz < oldsz then pure oldsz
  else do
    let ok ← allocLoop L pgdir oldsz newsz NPAGES (PGROUNDUP oldsz)
    if ok then pure newsz else pure 0

/-- `if(pgdir[i] & PTE_P) kfree(...)` for the entries `is`. -/
def freeTables (pgdir : Nat) : List Nat → M Unit
  | [] => pure ()
  | i :: is => do
    let pde ← load pgdir i
    if pde &&& PTE_P ≠ 0 then kfree L (pteAddr pde) else pure ()
    freeTables pgdir is

def freevm (pgdir : Option Nat) : M Unit :=
  match pgdir with
  | none => throw (.panic "freevm: no pgdir")
  | some pgdir => do
    let _ ← deallocuvm L pgdir KERNBASE 0
    freeTables L pgdir (List.range NPDENTRIES)
    kfree L pgdir

/-- a line of `kmap`. -/
structure Kmap where
  virt : Nat
  physStart : Nat
  physEnd : Nat
  perm : Nat

def kmap : List Kmap :=
  [⟨KERNBASE, 0, EXTMEM, PTE_W⟩,
   ⟨KERNLINK, KERNLINK - KERNBASE, L.data - KERNBASE, 0⟩,
   ⟨L.data, L.data - KERNBASE, PHYSTOP, PTE_W⟩,
   ⟨DEVSPACE, DEVSPACE, 0, PTE_W⟩]

/-- the lines of `kmap` are mapped, one after the other. -/
def mapKernel (pgdir : Nat) : List Kmap → M Bool
  | [] => pure true
  | k :: ks => do
    let ok ← mappages pgdir k.virt (u32 (k.physEnd + (2 ^ 32 - k.physStart))) k.physStart k.perm
    if ok then mapKernel pgdir ks else pure false

def setupkvm : M (Option Nat) := do
  let r ← kalloc
  match r with
  | none => pure none
  | some pgdir => do
    memset pgdir 0
    if DEVSPACE < KERNBASE + PHYSTOP then throw (.panic "PHYSTOP too high")
    else do
      let ok ← mapKernel pgdir (kmap L)
      if ok then pure (some pgdir)
      else do
        freevm L (some pgdir)
        pure none

/-- the loop of `copyuvm`; `false` is the jump to `bad`. -/
def copyLoop (pgdir d sz : Nat) : Nat → Nat → M Bool
  | 0, _ => throw .loop
  | fuel + 1, i =>
    if i < sz then do
      let r ← walkpgdir pgdir i false
      match r with
      | none => throw (.panic "copyuvm: pte should exist")
      | some (t, j) => do
        let pte ← load t j
        if pte &&& PTE_P = 0 then throw (.panic "copyuvm: page not present")
        else do
          let r ← kalloc
          match r with
          | none => pure false
          | some mem => do
            -- `memmove(mem, (char*)P2V(pa), PGSIZE)`
            modify fun m => m.set mem (m.frame (pteAddr pte))
            let ok ← mappages d i PGSIZE (PGSIZE * mem) (pteFlags pte)
            if ok then copyLoop pgdir d sz fuel (u32 (i + PGSIZE))
            else do
              kfree L mem
              pure false
    else pure true

def copyuvm (pgdir sz : Nat) : M (Option Nat) := do
  let r ← setupkvm L
  match r with
  | none => pure none
  | some d => do
    let ok ← copyLoop L pgdir d sz NPAGES 0
    if ok then pure (some d)
    else do
      freevm L (some d)
      pure none

end Xv6.Vm
