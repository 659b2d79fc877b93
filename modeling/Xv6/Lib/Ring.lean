import Mathlib.Data.List.Range
import Mathlib.Logic.Function.Basic
import Mathlib.Data.Nat.ModEq

/-!
# A ring buffer with free-running counters

A ring of `m` places with two counters `r` (taken) and `w` (put) that run modulo `M`; place `k % m`
holds the `k`-th element. `M` is a multiple of `m`, so the wrap of a counter does not move the
places, and `m < M`, so a full ring and an empty one have different counters.

    fill m M r w       : how many elements are in the ring;
    contents data r w  : the elements, oldest first;
    contents_push      : a put appends at the end;
    contents_pop       : a take removes the first;
    contents_take, contents_drop : a counter between the two cuts the ring.
-/

namespace Xv6.Lib.Ring
open Function List

variable {β : Type} {m M : ℕ}
variable {r w : ℕ}

/-- the distance of the two counters. -/
def fill (M r w : ℕ) : ℕ := (w + M - r) % M

lemma fill_lt (hM : 0 < M) (r w : ℕ) : fill M r w < M := Nat.mod_lt _ hM

lemma fill_eq_of_le (h : r ≤ w) (hw : w < M) : fill M r w = w - r := by
  have h1 : w + M - r = w - r + M := by omega
  rw [fill, h1, Nat.add_mod_right, Nat.mod_eq_of_lt (by omega)]

lemma fill_eq_of_lt (h : w < r) (hr : r < M) : fill M r w = w + M - r :=
  Nat.mod_eq_of_lt (by omega)

lemma write_eq (hr : r < M) (hw : w < M) : w = (r + fill M r w) % M := by
  rcases Nat.lt_or_ge w r with h | h
  · have h1 : r + (w + M - r) = w + M := by omega
    rw [fill_eq_of_lt h hr, h1, Nat.add_mod_right, Nat.mod_eq_of_lt hw]
  · rw [fill_eq_of_le h hw, Nat.add_sub_cancel' h, Nat.mod_eq_of_lt hw]

lemma fill_add {k : ℕ} (hr : r < M) (hk : k < M) : fill M r ((r + k) % M) = k := by
  rcases Nat.lt_or_ge (r + k) M with h | h
  · rw [Nat.mod_eq_of_lt h, fill_eq_of_le (Nat.le_add_right r k) h, Nat.add_sub_cancel_left]
  · have h1 : (r + k) % M = r + k - M := by
      rw [Nat.mod_eq_sub_mod h, Nat.mod_eq_of_lt (by omega)]
    rw [h1, fill_eq_of_lt (by omega) hr]
    omega

lemma fill_eq_zero (hr : r < M) (hw : w < M) : fill M r w = 0 ↔ r = w := by
  constructor
  · intro h
    have h1 := write_eq hr hw
    rw [h, Nat.add_zero, Nat.mod_eq_of_lt hr] at h1
    exact h1.symm
  · rintro rfl
    rw [fill_eq_of_le (le_refl r) hr, Nat.sub_self]

lemma fill_eq_full (hm : m < M) (hr : r < M) (hw : w < M) : fill M r w = m ↔ w = (r + m) % M := by
  constructor
  · intro h
    have h1 := write_eq hr hw
    rw [h] at h1
    exact h1
  · rintro rfl
    exact fill_add hr hm

lemma fill_put (hr : r < M) (hw : w < M) (h : fill M r w + 1 < M) : fill M r ((w + 1) % M) = fill M r w + 1 := by
  have h1 : (w + 1) % M = (r + (fill M r w + 1)) % M := by
    rw [← Nat.add_assoc, Nat.add_mod (r + fill M r w), ← write_eq hr hw, Nat.add_mod, Nat.mod_eq_of_lt hw]
  rw [h1, fill_add hr h]

lemma fill_take (hr : r < M) (hw : w < M) (h : r ≠ w) : fill M r w = fill M ((r + 1) % M) w + 1 := by
  have hM : 0 < M := Nat.zero_lt_of_lt hr
  have hr' : (r + 1) % M < M := Nat.mod_lt _ hM
  have hpos : fill M r w ≠ 0 := fun h0 => h ((fill_eq_zero hr hw).mp h0)
  obtain ⟨k, hk⟩ := Nat.exists_eq_succ_of_ne_zero hpos
  have hlt : k < M := by
    have := fill_lt hM r w
    omega
  have h1 : w = ((r + 1) % M + k) % M := by
    conv_lhs => rw [write_eq hr hw, hk]
    rw [Nat.mod_add_mod, Nat.succ_eq_add_one, Nat.add_comm k 1, Nat.add_assoc]
  have h2 : fill M ((r + 1) % M) w = k := by
    conv_lhs => rw [h1]
    exact fill_add hr' hlt
  rw [hk, h2]

/-! ## the elements -/

variable [NeZero m]
variable {data : Fin m → β} {r w k : ℕ}

/-- the place of the element with the number `k`. -/
def place (m : ℕ) [NeZero m] (k : ℕ) : Fin m := ⟨k % m, Nat.mod_lt _ (Nat.pos_of_ne_zero (NeZero.ne m))⟩

/-- the elements in the ring, oldest first. -/
def contents (M : ℕ) (data : Fin m → β) (r w : ℕ) : List β :=
  (range (fill M r w)).map fun k => data (place m (r + k))

@[simp] lemma length_contents (data : Fin m → β) (r w : ℕ) : (contents M data r w).length = fill M r w := by
  simp [contents]

lemma contents_getElem? (hk : k < fill M r w) : (contents M data r w)[k]? = some (data (place m (r + k))) := by
  unfold contents
  rw [getElem?_map, getElem?_range hk]
  rfl

lemma place_wrap (hd : m ∣ M) (k j : ℕ) : place m (k % M + j) = place m (k + j) := by
  apply Fin.ext
  show (k % M + j) % m = (k + j) % m
  rw [Nat.add_mod, Nat.mod_mod_of_dvd k hd, ← Nat.add_mod]

lemma place_ne {j j' : ℕ} (h : j < j') (h' : j' < j + m) : place m (k + j) ≠ place m (k + j') := by
  intro he
  have h1 : (k + j) % m = (k + j') % m := congrArg Fin.val he
  have h2 : k + j ≡ k + j' [MOD m] := h1
  have h3 : m ∣ (k + j') - (k + j) := (Nat.modEq_iff_dvd' (by omega)).mp h2
  have h4 := Nat.le_of_dvd (by omega) h3
  omega

/-- **A put appends.** -/
theorem contents_push (hd : m ∣ M) (hm : m < M) (hr : r < M) (hw : w < M) (h : fill M r w < m)
    (x : β) : contents M (update data (place m w) x) r ((w + 1) % M) = contents M data r w ++ [x] := by
  have hplace : place m w = place m (r + fill M r w) := by
    have h1 := place_wrap (m := m) hd (r + fill M r w) 0
    rw [← write_eq hr hw] at h1
    exact h1
  unfold contents
  rw [fill_put hr hw (by omega), range_succ, map_append, hplace]
  congr 1
  · apply map_congr_left
    intro k hk
    have hk := mem_range.mp hk
    exact update_of_ne (place_ne hk (by omega)) x data
  · rw [map_singleton, update_self]

lemma contents_pop (hd : m ∣ M) (hr : r < M) (hw : w < M) (h : r ≠ w) :
    contents M data r w = data (place m r) :: contents M data ((r + 1) % M) w := by
  unfold contents
  rw [fill_take hr hw h, range_succ_eq_map, map_cons, map_map]
  congr 1
  apply map_congr_left
  intro k _
  show data (place m (r + (k + 1))) = data (place m ((r + 1) % M + k))
  rw [place_wrap hd, Nat.add_assoc, Nat.add_comm 1 k]

lemma contents_take (hr : r < M) (hk : k ≤ fill M r w) :
    contents M data r ((r + k) % M) = (contents M data r w).take k := by
  have hlt : k < M := Nat.lt_of_le_of_lt hk (fill_lt (Nat.zero_lt_of_lt hr) r w)
  unfold contents
  rw [fill_add hr hlt, ← map_take, take_range, Nat.min_eq_left hk]

lemma fill_drop (hr : r < M) (hw : w < M) (hk : k ≤ fill M r w) : fill M ((r + k) % M) w = fill M r w - k := by
  have hM : 0 < M := Nat.zero_lt_of_lt hr
  have hlt := fill_lt hM r w
  have h1 : w = ((r + k) % M + (fill M r w - k)) % M := by
    conv_lhs => rw [write_eq hr hw]
    rw [Nat.mod_add_mod, Nat.add_assoc, Nat.add_sub_cancel' hk]
  conv_lhs => rw [h1]
  exact fill_add (Nat.mod_lt _ hM) (by omega)

lemma contents_drop (hd : m ∣ M) (hr : r < M) (hw : w < M) (hk : k ≤ fill M r w) :
    contents M data ((r + k) % M) w = (contents M data r w).drop k := by
  apply ext_getElem
  · simp [fill_drop hr hw hk]
  · intro j h1 h2
    simp only [contents, getElem_map, getElem_range, getElem_drop]
    rw [place_wrap hd, Nat.add_assoc]

end Xv6.Lib.Ring
