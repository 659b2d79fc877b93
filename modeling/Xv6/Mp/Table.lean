import Mathlib.Data.List.Defs
import Mathlib.Logic.Function.Basic
import Mathlib.Data.UInt

/-!
# The MP configuration table (`mp.c`)

`conf i` is the byte at offset `i` of the table that `mpsearch` found. `default: ismp = 0; break;` in the loop of
`mpinit` leaves the `switch` and not the loop, and `p` stays where it is: on an entry of unknown type the loop turns for
ever, and the panic below it is never reached.

* `Meets conf p`   the loop comes to an entry at `p`, said of the table alone;
* `mpLoop_stuck`   from an entry of unknown type, no number of turns is enough;
* `mpLoop_ends`    with known types the loop ends and `ncpu` stays within `NCPU`.
-/

namespace Xv6.Mp
open Function

abbrev NCPU : Nat := 8

/-- `sizeof(struct mpconf)`, `sizeof(struct mpproc)`, `sizeof(struct mpioapic)`. -/
abbrev confSize : Nat := 44
abbrev procSize : Nat := 20
abbrev ioapicSize : Nat := 8

abbrev MPPROC : UInt8 := 0x00
abbrev MPBUS : UInt8 := 0x01
abbrev MPIOAPIC : UInt8 := 0x02
abbrev MPIOINTR : UInt8 := 0x03
abbrev MPLINTR : UInt8 := 0x04

/-- what `mpinit` writes; `cpus[i].apicid` is `apicid i`. -/
structure State where
  ismp : Bool := true
  lapic : UInt32 := 0
  ncpu : Nat := 0
  apicid : Nat → UInt8 := fun _ => 0
  ioapicid : UInt8 := 0

/-- `conf->length`, a `ushort`. -/
def length (conf : Nat → UInt8) : Nat := (conf 4).toNat + 256 * (conf 5).toNat

/-- `conf->lapicaddr`. -/
def lapicaddr (conf : Nat → UInt8) : UInt32 :=
  (conf 36).toUInt32 ||| (conf 37).toUInt32 <<< 8 ||| (conf 38).toUInt32 <<< 16 ||| (conf 39).toUInt32 <<< 24

/-- the sum of the first `len` bytes, as a `uchar`. -/
def sum (addr : Nat → UInt8) (len : Nat) : UInt8 := ((List.range len).map addr).sum

/-- `mpconfig`, from the table on: signature, version and checksum. -/
def mpconfig (conf : Nat → UInt8) : Bool :=
  if (List.range 4).map conf ≠ [0x50, 0x43, 0x4D, 0x50] then false
  else if conf 6 ≠ 1 ∧ conf 6 ≠ 4 then false
  else if sum conf (length conf) ≠ 0 then false
  else true

/-- the `switch` on the entry at `p`: where `p` points next, and what is written. -/
def entry (conf : Nat → UInt8) (p : Nat) (s : State) : Nat × State :=
  if conf p = MPPROC then
    (p + procSize,
      if s.ncpu < NCPU then { s with apicid := update s.apicid s.ncpu (conf (p + 1)), ncpu := s.ncpu + 1 } else s)
  else if conf p = MPIOAPIC then (p + ioapicSize, { s with ioapicid := conf (p + 1) })
  else if conf p = MPBUS ∨ conf p = MPIOINTR ∨ conf p = MPLINTR then (p + 8, s)
  else (p, { s with ismp := false })

/-- the loop of `mpinit`, at most `fuel` turns; `none`: it is still running. -/
def mpLoop (conf : Nat → UInt8) : Nat → Nat → State → Option State
  | 0, _, _ => none
  | fuel + 1, p, s =>
    if p < length conf then mpLoop conf fuel (entry conf p s).1 (entry conf p s).2 else some s

/-- `mpinit`, up to the IMCR; the error is the text of the panic. -/
def mpinit (conf : Nat → UInt8) (fuel : Nat) : Option (Except String State) :=
  if mpconfig conf then
    match mpLoop conf fuel confSize { lapic := lapicaddr conf } with
    | none => none
    | some s => some (if s.ismp then .ok s else .error "Didn't find a suitable machine")
  else some (.error "Expect to run on an SMP")

def known : List UInt8 := [MPPROC, MPBUS, MPIOAPIC, MPIOINTR, MPLINTR]

/-- walking over entries of known types from `p`, one comes to an entry at `q`. -/
inductive Meets (conf : Nat → UInt8) : Nat → Nat → Prop
  | here {p} : p < length conf → Meets conf p p
  | next {p q} : p < length conf → conf p ∈ known →
      Meets conf (p + if conf p = MPPROC then procSize else 8) q → Meets conf p q

variable {conf : Nat → UInt8} {p q : Nat} {s : State}

lemma Meets.lt (h : Meets conf p q) : p < length conf := by
  cases h <;> assumption

lemma entry_known (h : conf p ∈ known) : (entry conf p s).1 = p + (if conf p = MPPROC then procSize else 8) ∧
    (entry conf p s).2.ismp = s.ismp ∧ (s.ncpu ≤ NCPU → (entry conf p s).2.ncpu ≤ NCPU) := by
  have htypes : conf p = MPPROC ∨ conf p = MPBUS ∨ conf p = MPIOAPIC ∨ conf p = MPIOINTR ∨ conf p = MPLINTR := by
    simpa [known] using h
  unfold entry
  grind

lemma entry_unknown (h : conf p ∉ known) : (entry conf p s).1 = p := by
  have htypes : ¬(conf p = MPPROC ∨ conf p = MPBUS ∨ conf p = MPIOAPIC ∨ conf p = MPIOINTR ∨ conf p = MPLINTR) := by
    simpa [known] using h
  unfold entry
  grind

/-- once the walk comes to an unknown type, no number of turns is enough. -/
theorem mpLoop_stuck (h : Meets conf p q) (hq : conf q ∉ known) (fuel : Nat) : mpLoop conf fuel p s = none := by
  induction fuel generalizing p s with
  | zero => rfl
  | succ fuel ih =>
    unfold mpLoop
    cases h with
    | here hp =>
      rw [if_pos hp, entry_unknown hq]
      exact ih (.here hp)
    | next hp hk hn =>
      rw [if_pos hp, (entry_known hk).1]
      exact ih hn

/-- with known types only, every turn goes on by an entry and the loop ends. -/
theorem mpLoop_ends {fuel : Nat} (hk : ∀ q, Meets conf p q → conf q ∈ known) (hs : s.ncpu ≤ NCPU)
    (hf : length conf ≤ p + fuel) :
    ∃ s', mpLoop conf (fuel + 1) p s = some s' ∧ s'.ismp = s.ismp ∧ s'.ncpu ≤ NCPU := by
  induction fuel generalizing p s with
  | zero => exact ⟨s, if_neg (by omega), rfl, hs⟩
  | succ fuel ih =>
    unfold mpLoop
    by_cases hp : p < length conf
    · have hknown := hk p (.here hp)
      have hsize : 0 < if conf p = MPPROC then procSize else 8 := by split <;> decide
      obtain ⟨h1, h2, h3⟩ := entry_known (s := s) hknown
      rw [if_pos hp, h1, ← h2]
      exact ih (fun q hq => hk q (.next hp hknown hq)) (h3 hs) (by omega)
    · exact ⟨s, if_neg hp, rfl, hs⟩

/-- **`mpinit` comes to an end exactly when it meets no entry of unknown type**, for every table that `mpconfig`
accepts; it then records at most `NCPU` processors. -/
theorem mpinit_ends_iff (conf : Nat → UInt8) (h : mpconfig conf = true) :
    (∃ fuel r, mpinit conf fuel = some r ∧ ((∃ s, r = .ok s ∧ s.ncpu ≤ NCPU) ∨
      (r = .error "Didn't find a suitable machine" ∧ ∃ p, Meets conf confSize p ∧ conf p ∉ known))) ↔
      ∀ p, Meets conf confSize p → conf p ∈ known := by
  constructor
  · rintro ⟨fuel, r, hr, -⟩ p hp
    by_contra hno
    rw [mpinit, if_pos h, mpLoop_stuck hp hno] at hr
    cases hr
  · intro hk
    obtain ⟨s, hloop, hismp, hn⟩ :=
      mpLoop_ends (s := { lapic := lapicaddr conf }) hk (Nat.zero_le _) (Nat.le_add_left (length conf) _)
    refine ⟨length conf + 1, .ok s, ?_, .inl ⟨s, rfl, hn⟩⟩
    rw [mpinit, if_pos h, hloop]
    simp [hismp]

/-- a table of version 4 with one entry. -/
def oneEntry (len checksum type : UInt8) (i : Nat) : UInt8 :=
  [0x50, 0x43, 0x4D, 0x50, len, 0, 4, checksum].getD i (if i = confSize then type else 0)

theorem mpinit_ends_one_processor : ∃ fuel r, mpinit (oneEntry 64 140 MPPROC) fuel = some r := by
  obtain ⟨fuel, r, h, -⟩ := (mpinit_ends_iff (oneEntry 64 140 MPPROC) (by decide +kernel)).mpr fun p hp => by
    cases hp with
    | here => decide
    | next _ _ hn => exact absurd hn.lt (by decide)
  exact ⟨fuel, r, h⟩

theorem mpinit_unknown_forever :
    mpconfig (oneEntry 45 154 5) = true ∧ ∀ fuel, mpinit (oneEntry 45 154 5) fuel = none := by
  have hc : mpconfig (oneEntry 45 154 5) = true := by decide +kernel
  refine ⟨hc, fun fuel => ?_⟩
  rw [mpinit, if_pos hc, mpLoop_stuck (.here (by decide +kernel)) (by decide +kernel)]

end Xv6.Mp
