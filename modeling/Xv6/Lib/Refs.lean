import Xv6.Lib.Total

/-!
# How many places refer to a thing

A place refers to one thing at most. `refs p b` is the number of places that refer to `b`; when one
place is given another thing to refer to, the counts of the two things change by one
(`refs_update`), and a thing that is referred to has a positive count (`refs_pos`).
-/

namespace Xv6.Lib

variable {ι β : Type} [Fintype ι] [DecidableEq ι] [DecidableEq β]

/-- 1, if `o` is `b`. -/
def hit (b : β) (o : Option β) : Int := if o = some b then 1 else 0

def refs (p : ι → Option β) (b : β) : Int := total (hit b) p

@[simp] lemma hit_none (b : β) : hit b none = 0 := if_neg (Option.some_ne_none b).symm

lemma hit_some (b c : β) : hit b (some c) = if b = c then 1 else 0 := by
  unfold hit
  simp only [Option.some.injEq, eq_comm]

@[simp] lemma hit_self (b : β) : hit b (some b) = 1 := if_pos rfl

lemma hit_nonneg (b : β) (o : Option β) : 0 ≤ hit b o := by
  unfold hit
  split <;> decide

lemma hit_eq_zero {b : β} {o : Option β} : hit b o = 0 ↔ o ≠ some b := by
  unfold hit
  split
  · next h => exact ⟨fun h0 => absurd h0 Int.one_ne_zero, fun hn => absurd h hn⟩
  · next h => exact ⟨fun _ => h, fun _ => rfl⟩

lemma refs_update (p : ι → Option β) (i : ι) (o : Option β) (b : β) :
    refs (Function.update p i o) b = refs p b - hit b (p i) + hit b o := total_update _ p i o

omit [DecidableEq ι] in
lemma refs_nonneg (p : ι → Option β) (b : β) : 0 ≤ refs p b :=
  Finset.sum_nonneg fun i _ => hit_nonneg b (p i)

omit [DecidableEq ι] in
lemma refs_eq_zero {p : ι → Option β} {b : β} : refs p b = 0 ↔ ∀ i, p i ≠ some b := by
  unfold refs
  rw [total_eq_zero (hit_nonneg b)]
  exact forall_congr' fun i => hit_eq_zero

omit [DecidableEq ι] in
lemma refs_pos {p : ι → Option β} {b : β} : 0 < refs p b ↔ ∃ i, p i = some b := by
  have h0 := refs_nonneg p b
  have hz := refs_eq_zero (p := p) (b := b)
  constructor
  · intro h
    by_contra hn
    have := hz.mpr fun i hi => hn ⟨i, hi⟩
    omega
  · rintro ⟨i, hi⟩
    by_contra hn
    exact hz.mp (by omega) i hi

end Xv6.Lib
