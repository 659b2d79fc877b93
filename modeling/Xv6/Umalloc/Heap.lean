import Xv6.Proc.Table
import Xv6.Lib.Path
import Xv6.Lib.Segment

/-!
# `malloc` and `free` (`umalloc.c`)

A pointer is an address below `2^32`, 0 is the null pointer, and `Header` is `union header`: eight bytes, so that
`p + n` of a `Header*` is `p + 8 * n`. `mem` has the header that stands at an address. `base` is the address of the
static header, and the loops have `fuel`.

The answer of `sbrk` comes with the call: the address of fresh memory (`Fresh`), or -1. `top` is the end of the
memory so far, `units` counts the headers' worth that `morecore` has got, and `live` has the pointers that `malloc` has
returned and that were not freed, each with the number of bytes it was asked for.
-/

namespace Xv6.Umalloc
open Lib Function

structure Header where
  ptr : Nat
  size : Nat

structure Heap where
  mem : Nat → Header
  freep : Nat
  top : Nat
  units : Nat
  live : List (Nat × Nat)

/-- `p + n` -/
def plus (p n : Nat) : Nat := (p + 8 * n) % UINT

/-- `(Header*)ap - 1` -/
def header (ap : Nat) : Nat := (UINT - 8 + ap) % UINT

section
variable (mem : Nat → Header) (bp : Nat)

/-- the two ways out of the loop of `free`. -/
def stops (p : Nat) : Bool :=
  bp > p ∧ bp < (mem p).ptr ∨ p ≥ (mem p).ptr ∧ (bp > p ∨ bp < (mem p).ptr)

/-- `for(p = freep; ...; p = p->s.ptr)` -/
def place (fuel freep : Nat) : Option Nat := seek (fun p => (mem p).ptr) (stops mem bp) fuel freep

/-- the block `bp` is joined with the upper neighbour, or linked to it. -/
def joinUpper (p : Nat) : Nat → Header :=
  if plus bp (mem bp).size = (mem p).ptr then
    update mem bp ⟨(mem (mem p).ptr).ptr, ((mem bp).size + (mem (mem p).ptr).size) % UINT⟩
  else update mem bp ⟨(mem p).ptr, (mem bp).size⟩

/-- the lower neighbour `p` is joined with the block `bp`, or linked to it. -/
def joinLower (p : Nat) : Nat → Header :=
  if plus p (mem p).size = bp then
    update mem p ⟨(mem bp).ptr, ((mem p).size + (mem bp).size) % UINT⟩
  else update mem p ⟨bp, (mem p).size⟩

end

def free (fuel : Nat) (h : Heap) (ap : Nat) : Option Heap :=
  (place h.mem (header ap) fuel h.freep).map fun p =>
    { h with mem := joinLower (joinUpper h.mem (header ap) p) (header ap) p, freep := p }

section
variable (base : Nat)

/-- memory that `sbrk` may return for `nu` units. -/
def Fresh (h : Heap) (nu p : Nat) : Prop :=
  p % 8 = 0 ∧ base + 8 ≤ p ∧ h.top ≤ p ∧ p + 8 * nu < UINT

instance (h : Heap) (nu p : Nat) : Decidable (Fresh base h nu p) :=
  inferInstanceAs (Decidable (_ ∧ _))

/-- `sbrk` for `nu` units. -/
def sbrk (h : Heap) (nu : Nat) : Option Nat → Option (Option Nat)
  | none => some none
  | some p => if Fresh base h nu p then some (some p) else none

/-- the units that `morecore` asks for. -/
def request (nu : Nat) : Nat := if nu < 4096 then 4096 else nu

/-- the memory at `p` gets a header, `hp->s.size = nu`. -/
def grow (h : Heap) (p nu : Nat) : Heap :=
  { h with mem := update h.mem p { h.mem p with size := nu }, top := p + 8 * nu, units := h.units + nu }

def morecore (fuel : Nat) (h : Heap) (nu : Nat) (answer : Option Nat) : Option (Heap × Nat) :=
  match sbrk base h (request nu) answer with
  | none => none
  | some none => some (h, 0)
  | some (some p) => (free fuel (grow h p (request nu)) (plus p 1)).map fun h => (h, h.freep)

/-- the block `p`, with `prevp` before it, is big enough: all of it, or its tail, is taken. -/
def take (h : Heap) (nunits prevp p : Nat) : Heap × Nat :=
  if (h.mem p).size = nunits then
    ({ h with mem := update h.mem prevp { h.mem prevp with ptr := (h.mem p).ptr }, freep := prevp }, plus p 1)
  else
    let rest := (h.mem p).size - nunits
    let q := plus p rest
    let mem := update h.mem p { h.mem p with size := rest }
    ({ h with mem := update mem q { mem q with size := nunits }, freep := prevp }, plus q 1)

/-- the loop of `malloc`; `answers` are those of `sbrk`. -/
def search (nunits : Nat) : Nat → Heap → List (Option Nat) → Nat → Nat → Option (Heap × Nat)
  | 0, _, _, _, _ => none
  | n + 1, h, answers, prevp, p =>
    if (h.mem p).size ≥ nunits then some (take h nunits prevp p)
    else if p = h.freep then
      match answers with
      | [] => none
      | a :: answers =>
        match morecore base n h nunits a with
        | none => none
        | some (h, p) => if p = 0 then some (h, 0) else search nunits n h answers p (h.mem p).ptr
    else search nunits n h answers p (h.mem p).ptr

/-- `(nbytes + sizeof(Header) - 1)/sizeof(Header) + 1` -/
def unitsFor (nbytes : Nat) : Nat := (nbytes + 7) % UINT / 8 + 1

/-- the first call makes a circular list of `base` alone. -/
def init (h : Heap) : Heap :=
  if h.freep = 0 then { h with mem := update h.mem base ⟨base, 0⟩, freep := base } else h

def malloc (fuel : Nat) (h : Heap) (nbytes : Nat) (answers : List (Option Nat)) : Option (Heap × Nat) :=
  let h := init base h
  search base (unitsFor nbytes) fuel h answers h.freep (h.mem h.freep).ptr

/-! ## the programs -/

/-- a program calls `malloc` and `free`, and writes to the memory that it has got. -/
inductive Label where
  | malloc (nbytes : Nat) (answers : List (Option Nat)) (fuel : Nat)
  | free (ap fuel : Nat)
  | write (a : Nat) (x : Header)

def boot (mem : Nat → Header) : Heap := ⟨mem, 0, 0, 0, []⟩

def step (h : Heap) : Label → Except Stop Heap
  | .malloc nbytes answers fuel =>
    if nbytes < 2 ^ 31 - 64 then
      match malloc base fuel h nbytes answers with
      | none => .error .blocked
      | some (h, ap) => .ok (if ap = 0 then h else { h with live := (ap, nbytes) :: h.live })
    else .error .blocked
  | .free ap fuel =>
    match h.live.find? (·.1 = ap) with
    | none => .error .blocked
    | some a =>
      match free fuel h ap with
      | none => .error .blocked
      | some h => .ok { h with live := h.live.erase a }
  | .write a x =>
    if ∃ b ∈ h.live, b.1 ≤ a ∧ a < b.1 + b.2 then .ok { h with mem := update h.mem a x }
    else .error .blocked

end

end Xv6.Umalloc
