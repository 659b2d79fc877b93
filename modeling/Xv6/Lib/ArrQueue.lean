import Mathlib.Data.List.Nodup
import Mathlib.Logic.Function.Basic

/-!
# An array with a counter as a list

A queue is kept as an array and the index `top` of its last entry (`-1`: empty), the way C code
keeps it: entries are appended at `top + 1`, and an entry leaves by shifting everything behind it
one cell down. The operations are the loops of such code, indices and all; `entries` is the list
they stand for, and for a queue without null cells (`Full`)

* `entries_push`      an append is an append;
* `entries_delete`    a delete at `i` is `List.eraseIdx`;
* `entries_shift`     the shift loop ALONE (no decrement) repeats the last entry;
* `entries_rotate`    shift and store at `top`: the entry `i` goes to the end;
* `entries_rem`       the delete-while-scanning loop is `remSkip`: it does not look at the entry
                      that slides under the cursor.
-/

namespace Xv6.Lib
open Function List Option

/-- `struct proc *q[cap]; int c;`: cells (`none`: a null pointer) and the index of the last
entry. -/
structure ArrQueue (α : Type) where
  cell : Nat → Option α
  top : Int

namespace ArrQueue
variable {α : Type}

/-- nothing stored, `top = -1`. -/
def empty : ArrQueue α := ⟨fun _ => none, -1⟩

/-- the entries `q[0], ..., q[top]`. -/
def entries (q : ArrQueue α) : List α := (range (q.top + 1).toNat).filterMap q.cell

/-- `c++; q[c] = x`, for an array of `cap` cells; `none`: the index is outside the array. -/
def push (cap : Nat) (q : ArrQueue α) (x : α) : Option (ArrQueue α) :=
  if 0 ≤ q.top + 1 ∧ q.top + 1 < cap then
    some ⟨update q.cell (q.top + 1).toNat (some x), q.top + 1⟩
  else none

/-- `n` turns of `q[j] = q[j + 1]; j++`. -/
def shiftLoop (cell : Nat → Option α) : Nat → Nat → Nat → Option α
  | _, 0 => cell
  | j, n + 1 => shiftLoop (update cell j (cell (j + 1))) (j + 1) n

/-- `for (j = i; j <= c - 1; j++) q[j] = q[j + 1];` -/
def shift (q : ArrQueue α) (i : Nat) : ArrQueue α :=
  ⟨shiftLoop q.cell i (q.top - i).toNat, q.top⟩

/-- the shift loop, then `c--`. -/
def delete (q : ArrQueue α) (i : Nat) : ArrQueue α := ⟨(q.shift i).cell, q.top - 1⟩

/-- the shift loop, then `q[c] = x`; `none`: the index is outside the array. -/
def rotate (cap : Nat) (q : ArrQueue α) (i : Nat) (x : α) : Option (ArrQueue α) :=
  if 0 ≤ q.top ∧ q.top < cap then
    some ⟨update (q.shift i).cell q.top.toNat (some x), q.top⟩
  else none

/-- at most `n` turns of the loop `for (; i <= c; i++) if (f(q[i])) delete(i);` -/
def remLoop (f : α → Bool) : Nat → Nat → ArrQueue α → ArrQueue α
  | 0, _, q => q
  | n + 1, i, q =>
    if (i : Int) ≤ q.top then
      remLoop f n (i + 1) (if (q.cell i).any f then q.delete i else q)
    else q

/-- the whole loop: `c` never grows in it, so `c + 1` turns are enough. -/
def rem (f : α → Bool) (q : ArrQueue α) : ArrQueue α := remLoop f (q.top + 1).toNat 0 q

/-- no null cell up to `top`, and `top` is not below `-1`. -/
structure Full (q : ArrQueue α) : Prop where
  low : -1 ≤ q.top
  some : ∀ i : Nat, (i : Int) ≤ q.top → (q.cell i).isSome

instance (q : ArrQueue α) : Decidable q.Full :=
  decidable_of_iff (-1 ≤ q.top ∧ ∀ i < (q.top + 1).toNat, (q.cell i).isSome = true)
    ⟨fun h => ⟨h.1, fun i hi => h.2 i (by omega)⟩, fun h => ⟨h.low, fun i hi => h.some i (by omega)⟩⟩

lemma full_empty : (empty : ArrQueue α).Full :=
  ⟨Int.le_refl _, fun i hi => by simp only [empty] at hi; omega⟩

/-! ## the list of entries -/

lemma filterMap_range (cell : Nat → Option α) (n : Nat) (h : ∀ i, i < n → (cell i).isSome) :
    ((range n).filterMap cell).length = n ∧ ∀ i, ((range n).filterMap cell)[i]? = if i < n then cell i else none := by
  induction n with
  | zero => simp
  | succ n ih =>
    obtain ⟨hl, hg⟩ := ih (fun i hi => h i (by omega))
    obtain ⟨x, hx⟩ := isSome_iff_exists.mp (h n (by omega))
    rw [range_succ, filterMap_append]
    have e : filterMap cell [n] = [x] := by simp [hx]
    rw [e]
    refine ⟨by simp [hl], fun i => ?_⟩
    rw [getElem?_append, hl, hg]
    split
    · rw [if_pos (by omega)]
    · next hi =>
      by_cases e' : i = n
      · subst e'; simp [hx]
      · rw [if_neg (by omega), getElem?_eq_none (by simp; omega)]

variable {q : ArrQueue α}
variable {i cap : Nat} {x a y : α} {q' : ArrQueue α} {f : α → Bool} {l : List α}

lemma Full.cells (h : q.Full) : ∀ i, i < (q.top + 1).toNat → (q.cell i).isSome :=
  fun i hi => h.some i (by omega)

lemma Full.length (h : q.Full) : (q.entries.length : Int) = q.top + 1 := by
  have e : q.entries.length = (q.top + 1).toNat := (filterMap_range q.cell _ h.cells).1
  have := h.low
  omega

lemma Full.getElem? (h : q.Full) (i : Nat) : q.entries[i]? = if (i : Int) ≤ q.top then q.cell i else none := by
  have e : q.entries[i]? = if i < (q.top + 1).toNat then q.cell i else none :=
    (filterMap_range q.cell _ h.cells).2 i
  rw [e]
  by_cases hi : (i : Int) ≤ q.top
  · rw [if_pos hi, if_pos (by omega)]
  · rw [if_neg hi, if_neg (by omega)]

lemma Full.getElem?_of_le (h : q.Full) (hi : (i : Int) ≤ q.top) :
    q.entries[i]? = q.cell i := by rw [h.getElem?, if_pos hi]

lemma Full.cell_of_getElem? (h : q.Full) (hx : q.entries[i]? = Option.some x) :
    (i : Int) ≤ q.top ∧ q.cell i = Option.some x := by
  rw [h.getElem?] at hx
  split at hx
  · next hi => exact ⟨hi, hx⟩
  · cases hx

lemma mem_entries : x ∈ q.entries ↔ ∃ i : Nat, (i : Int) ≤ q.top ∧ q.cell i = Option.some x := by
  unfold entries
  rw [mem_filterMap]
  constructor
  · intro ⟨i, hi, hx⟩
    rw [mem_range] at hi
    exact ⟨i, by omega, hx⟩
  · intro ⟨i, hi, hx⟩
    exact ⟨i, mem_range.mpr (by omega), hx⟩

/-! ## append -/

lemma push_eq (h : q.push cap x = some q') : 0 ≤ q.top + 1 ∧ q.top + 1 < cap ∧
      q' = ⟨update q.cell (q.top + 1).toNat (some x), q.top + 1⟩ := by
  unfold push at h
  split at h
  · next hc => exact ⟨hc.1, hc.2, (Option.some.inj h).symm⟩
  · cases h

lemma Full.push (hf : q.Full) (h : q.push cap x = Option.some q') : q'.Full ∧ q'.entries = q.entries ++ [x] := by
  obtain ⟨h0, hc, rfl⟩ := push_eq h
  have hfull : (ArrQueue.mk (update q.cell (q.top + 1).toNat (Option.some x)) (q.top + 1)).Full := by
    refine ⟨by show -1 ≤ q.top + 1; omega, fun i hi => ?_⟩
    change (i : Int) ≤ q.top + 1 at hi
    show (update q.cell (q.top + 1).toNat (Option.some x) i).isSome
    rw [update_apply]
    split
    · rfl
    · exact hf.some i (by omega)
  refine ⟨hfull, ext_getElem? fun i => ?_⟩
  rw [hfull.getElem?, getElem?_append]
  have hl := hf.length
  show (if (i : Int) ≤ q.top + 1 then update q.cell (q.top + 1).toNat (Option.some x) i
    else none) = _
  rw [update_apply]
  by_cases h1 : i < q.entries.length
  · rw [if_pos h1, if_pos (by omega), if_neg (by omega), hf.getElem?_of_le (by omega)]
  · rw [if_neg h1]
    by_cases h2 : i = q.entries.length
    · subst h2; rw [if_pos (by omega), if_pos (by omega)]; simp
    · rw [if_neg (by omega), getElem?_eq_none (by simp; omega)]

lemma Full.push_some (hf : q.Full) (x : α) (h : q.entries.length < cap) : ∃ q', q.push cap x = Option.some q' := by
  have hl := hf.length
  have := hf.low
  unfold ArrQueue.push
  rw [if_pos (by omega)]
  exact ⟨_, rfl⟩

/-! ## shift, delete, rotate -/

lemma shiftLoop_apply (cell : Nat → Option α) (j n m : Nat) :
    shiftLoop cell j n m = if j ≤ m ∧ m < j + n then cell (m + 1) else cell m := by
  induction n generalizing cell j with
  | zero => rw [if_neg (by omega)]; rfl
  | succ n ih =>
    show shiftLoop (update cell j (cell (j + 1))) (j + 1) n m = _
    rw [ih, update_apply, update_apply]
    by_cases hm : m = j
    · subst hm
      rw [if_neg (by omega), if_pos rfl, if_pos (by omega)]
    · by_cases hc : j + 1 ≤ m ∧ m < j + 1 + n
      · rw [if_pos hc, if_neg (by omega), if_pos (by omega)]
      · rw [if_neg hc, if_neg hm, if_neg (by omega)]

lemma shift_cell (q : ArrQueue α) (i m : Nat) :
    (q.shift i).cell m = if i ≤ m ∧ (m : Int) < q.top then q.cell (m + 1) else q.cell m := by
  show shiftLoop q.cell i (q.top - i).toNat m = _
  rw [shiftLoop_apply]
  by_cases h : i ≤ m ∧ (m : Int) < q.top
  · rw [if_pos h, if_pos (by omega)]
  · rw [if_neg h, if_neg (by omega)]

lemma Full.shift (hf : q.Full) (i : Nat) : (q.shift i).Full := by
  refine ⟨hf.low, fun j hj => ?_⟩
  change (j : Int) ≤ q.top at hj
  rw [shift_cell]
  split
  · exact hf.some _ (by omega)
  · exact hf.some _ hj

section
variable (hf : q.Full) (hi : (i : Int) ≤ q.top)
include hf hi

lemma Full.delete : (q.delete i).Full := by
  refine ⟨by show -1 ≤ q.top - 1; omega, fun j hj => ?_⟩
  change (j : Int) ≤ q.top - 1 at hj
  exact (hf.shift i).some j (by show (j : Int) ≤ q.top; omega)

lemma entries_delete : (q.delete i).entries = q.entries.eraseIdx i := by
  apply ext_getElem?
  intro j
  rw [(hf.delete hi).getElem?, getElem?_eraseIdx, hf.getElem?, hf.getElem?]
  show (if (j : Int) ≤ q.top - 1 then (q.shift i).cell j else none) = _
  rw [shift_cell]
  by_cases hj : j < i
  · rw [if_pos (by omega), if_neg (by omega), if_pos hj, if_pos (by omega)]
  · rw [if_neg hj]
    by_cases ht : (j : Int) ≤ q.top - 1
    · rw [if_pos ht, if_pos (by omega), if_pos (by omega)]
    · rw [if_neg ht, if_neg (by omega)]

/-- without the decrement the last entry is there twice. -/
theorem entries_shift (hx : q.entries.getLast? = some x) : (q.shift i).entries = q.entries.eraseIdx i ++ [x] := by
  have hl := hf.length
  have hlen : (q.entries.eraseIdx i).length = q.entries.length - 1 :=
    length_eraseIdx_of_lt (by omega)
  rw [getLast?_eq_getElem?, hf.getElem?_of_le (by omega)] at hx
  apply ext_getElem?
  intro j
  rw [(hf.shift i).getElem?, getElem?_append, hlen, getElem?_eraseIdx, hf.getElem?, hf.getElem?]
  show (if (j : Int) ≤ q.top then (q.shift i).cell j else none) = _
  rw [shift_cell]
  by_cases h1 : j < q.entries.length - 1
  · rw [if_pos h1, if_pos (by omega)]
    by_cases h2 : j < i
    · rw [if_neg (by omega), if_pos h2, if_pos (by omega)]
    · rw [if_pos (by omega), if_neg h2, if_pos (by omega)]
  · rw [if_neg h1]
    by_cases h2 : j = q.entries.length - 1
    · subst h2
      rw [if_pos (by omega), if_neg (by omega), hx]
      simp
    · rw [if_neg (by omega), getElem?_eq_none (by simp; omega)]

end

lemma rotate_eq (h : q.rotate cap i x = some q') : 0 ≤ q.top ∧ q.top < cap ∧
      q' = ⟨update (q.shift i).cell q.top.toNat (some x), q.top⟩ := by
  unfold rotate at h
  split at h
  · next hc => exact ⟨hc.1, hc.2, (Option.some.inj h).symm⟩
  · cases h

lemma Full.rotate (hf : q.Full) (hi : (i : Int) ≤ q.top) (h : q.rotate cap i x = Option.some q') :
    q'.Full ∧ q'.entries = q.entries.eraseIdx i ++ [x] := by
  obtain ⟨h0, hc, rfl⟩ := rotate_eq h
  have hl := hf.length
  have hfull : (ArrQueue.mk (update (q.shift i).cell q.top.toNat (Option.some x)) q.top).Full := by
    refine ⟨hf.low, fun j hj => ?_⟩
    change (j : Int) ≤ q.top at hj
    show (update (q.shift i).cell q.top.toNat (Option.some x) j).isSome
    rw [update_apply]
    split
    · rfl
    · exact (hf.shift i).some j hj
  have hlen : (q.entries.eraseIdx i).length = q.entries.length - 1 :=
    length_eraseIdx_of_lt (by omega)
  refine ⟨hfull, ext_getElem? fun j => ?_⟩
  rw [hfull.getElem?, getElem?_append, hlen, getElem?_eraseIdx, hf.getElem?, hf.getElem?]
  show (if (j : Int) ≤ q.top then update (q.shift i).cell q.top.toNat (Option.some x) j
    else none) = _
  rw [update_apply, shift_cell]
  by_cases h1 : j < q.entries.length - 1
  · rw [if_pos h1, if_pos (by omega), if_neg (by omega)]
    by_cases h2 : j < i
    · rw [if_neg (by omega), if_pos h2, if_pos (by omega)]
    · rw [if_pos (by omega), if_neg h2, if_pos (by omega)]
  · rw [if_neg h1]
    by_cases h2 : j = q.entries.length - 1
    · subst h2
      rw [if_pos (by omega), if_pos (by omega)]
      simp
    · rw [if_neg (by omega), getElem?_eq_none (by simp; omega)]

lemma Full.rotate_some (hf : q.Full) (x : α) (hi : (i : Int) ≤ q.top)
    (h : q.entries.length ≤ cap) : ∃ q', q.rotate cap i x = Option.some q' := by
  have hl := hf.length
  unfold ArrQueue.rotate
  rw [if_pos (by omega)]
  exact ⟨_, rfl⟩

/-! ## delete while scanning -/

/-- the list form of `rem`: after a hit the next entry is kept unseen. -/
def remSkip (f : α → Bool) : List α → List α
  | [] => []
  | [a] => if f a then [] else [a]
  | a :: b :: l => if f a then b :: remSkip f l else a :: remSkip f (b :: l)

lemma remSkip_cons_neg (h : f a = false) (l : List α) : remSkip f (a :: l) = a :: remSkip f l := by
  cases l with
  | nil | cons => simp [remSkip, h]

lemma remSkip_hit (h : f a = true) (l : List α) : remSkip f (a :: l) = l.take 1 ++ remSkip f (l.drop 1) := by
  cases l with
  | nil | cons => simp [remSkip, h]

/-- one hit takes out one entry and passes over the next one: `l.take i` is what the loop has
passed. -/
theorem remLoop_entries (f : α → Bool) (n i : Nat) (q : ArrQueue α) (hf : q.Full)
    (hn : q.entries.length ≤ i + n) : (remLoop f n i q).Full ∧
      (remLoop f n i q).entries = q.entries.take i ++ remSkip f (q.entries.drop i) := by
  induction n generalizing i q with
  | zero =>
    refine ⟨hf, ?_⟩
    rw [drop_eq_nil_of_le (by omega), take_of_length_le (by omega)]
    simp [remLoop, remSkip]
  | succ n ih =>
    have hl := hf.length
    unfold remLoop
    by_cases hi : (i : Int) ≤ q.top
    · rw [if_pos hi]
      have hlt : i < q.entries.length := by omega
      have hcell : q.cell i = some q.entries[i] := by
        rw [← hf.getElem?_of_le hi, getElem?_eq_getElem hlt]
      have hd : q.entries.drop i = q.entries[i] :: q.entries.drop (i + 1) :=
        drop_eq_getElem_cons hlt
      rw [hcell, any_some, hd]
      cases hfx : f q.entries[i] with
      | false =>
        rw [if_neg (by simp)]
        obtain ⟨h1, h2⟩ := ih (i + 1) q hf (by omega)
        refine ⟨h1, ?_⟩
        rw [h2, remSkip_cons_neg hfx, ← take_append_getElem hlt, append_assoc]
        rfl
      | true =>
        rw [if_pos rfl]
        have he := entries_delete hf hi
        have hlen : (q.entries.eraseIdx i).length = q.entries.length - 1 :=
          length_eraseIdx_of_lt hlt
        obtain ⟨h1, h2⟩ := ih (i + 1) (q.delete i) (hf.delete hi) (by rw [he]; omega)
        refine ⟨h1, ?_⟩
        rw [h2, he, remSkip_hit hfx, eraseIdx_eq_take_drop_succ]
        have hti : (q.entries.take i).length = i := by simp; omega
        have e1 : i + 1 - i = 1 := by omega
        have ht : (q.entries.take i).take (i + 1) = q.entries.take i :=
          take_of_length_le (by omega)
        have hdr : (q.entries.take i).drop (i + 1) = [] := drop_eq_nil_of_le (by omega)
        rw [take_append, drop_append, hti, e1, ht, hdr, nil_append, append_assoc]
    · rw [if_neg hi]
      refine ⟨hf, ?_⟩
      rw [drop_eq_nil_of_le (by omega), take_of_length_le (by omega)]
      simp [remSkip]

lemma Full.rem (hf : q.Full) (f : α → Bool) : (q.rem f).Full ∧ (q.rem f).entries = remSkip f q.entries := by
  have hl := hf.length
  obtain ⟨h1, h2⟩ := remLoop_entries f (q.top + 1).toNat 0 q hf (by omega)
  refine ⟨h1, ?_⟩
  rw [ArrQueue.rem, h2]
  simp

section
variable (f : α → Bool) (n i : Nat) (q : ArrQueue α)

/-- the loop never looks beyond the entry it started with, and leaves the array alone when
nothing is hit. -/
theorem remLoop_of_no_hit
    (h : ∀ j : Nat, i ≤ j → (j : Int) ≤ q.top → (q.cell j).any f = false) :
    remLoop f n i q = q := by
  induction n generalizing i with
  | zero => rfl
  | succ n ih =>
    unfold remLoop
    split
    · next hi =>
      rw [h i (Nat.le_refl i) hi, if_neg (by simp)]
      exact ih (i + 1) (fun j hj => h j (by omega))
    · rfl

lemma remLoop_top_le : (remLoop f n i q).top ≤ q.top := by
  induction n generalizing i q with
  | zero => exact Int.le_refl _
  | succ n ih =>
    unfold remLoop
    split
    · apply Int.le_trans (ih (i + 1) _)
      split
      · show q.top - 1 ≤ q.top; omega
      · exact Int.le_refl _
    · exact Int.le_refl _

/-- every hit is paid by the counter. -/
theorem remLoop_top_lt (j : Nat) (hij : i ≤ j)
    (hjn : j < i + n) (hj : (j : Int) ≤ q.top) (hf : (q.cell j).any f = true) :
    (remLoop f n i q).top < q.top := by
  induction n generalizing i with
  | zero => omega
  | succ n ih =>
    unfold remLoop
    rw [if_pos (by omega)]
    by_cases hi : (q.cell i).any f = true
    · rw [if_pos hi]
      have h1 := remLoop_top_le f n (i + 1) (q.delete i)
      have h2 : (q.delete i).top = q.top - 1 := rfl
      omega
    · rw [if_neg hi]
      have hne : i ≠ j := fun e => hi (e ▸ hf)
      exact ih (i + 1) (by omega) (by omega)

end

/-- **the loop changes the queue exactly when it hits an entry.** -/
theorem rem_eq_self_iff (f : α → Bool) (q : ArrQueue α) :
    q.rem f = q ↔ ∀ j : Nat, (j : Int) ≤ q.top → (q.cell j).any f = false := by
  constructor
  · intro h j hj
    by_contra hf
    have h1 := remLoop_top_lt f (q.top + 1).toNat 0 q j (Nat.zero_le j) (by omega) hj (by simpa using hf)
    have h2 : (q.rem f).top = q.top := congrArg ArrQueue.top h
    unfold ArrQueue.rem at h2
    omega
  · intro h
    exact remLoop_of_no_hit f _ 0 q (fun j _ => h j)

lemma remLoop_cell (f : α → Bool) (n i m : Nat) (q : ArrQueue α)
    (h : ∀ j, i ≤ j → j ≤ m → (q.cell j).any f = false) : (remLoop f n i q).cell m = q.cell m := by
  induction n generalizing i q with
  | zero => rfl
  | succ n ih =>
    unfold remLoop
    split
    · by_cases him : i ≤ m
      · rw [h i (Nat.le_refl i) him, if_neg nofun]
        exact ih (i + 1) q fun j hj => h j (by omega)
      · -- the cursor is beyond `m`
        rw [ih (i + 1) _ fun j hj hm => by omega]
        split
        · show (q.shift i).cell m = q.cell m
          rw [shift_cell, if_neg (by omega)]
        · rfl
    · rfl

/-- the loop looks at no cell beyond `top`. -/
theorem remLoop_congr (f : α → Bool) (n i : Nat) {c : Int} (hq : q.top ≤ c) (ht : q'.top = q.top)
    (h : ∀ j : Nat, (j : Int) ≤ c → q'.cell j = q.cell j) :
    (remLoop f n i q').top = (remLoop f n i q).top ∧
      ∀ j : Nat, (j : Int) ≤ c → (remLoop f n i q').cell j = (remLoop f n i q).cell j := by
  induction n generalizing i q q' with
  | zero => exact ⟨ht, h⟩
  | succ n ih =>
    unfold remLoop
    rw [ht]
    by_cases hi : (i : Int) ≤ q.top
    · rw [if_pos hi, if_pos hi, h i (by omega)]
      split
      · refine ih _ (Int.le_trans (Int.sub_le_self _ (by decide)) hq) (congrArg (· - 1) ht) fun j hj => ?_
        show (q'.shift i).cell j = (q.shift i).cell j
        rw [shift_cell, shift_cell, ht, h j hj]
        split
        · exact h (j + 1) (by omega)
        · rfl
      · exact ih _ hq ht h
    · rw [if_neg hi, if_neg hi]
      exact ⟨ht, h⟩

/-! ## entries of a queue that may have null cells -/

lemma push_cell (h : q.push cap x = some q') (hi : (i : Int) ≤ q'.top) (hc : q'.cell i = some y) :
    (i : Int) ≤ q.top ∧ q.cell i = some y ∨ y = x := by
  obtain ⟨-, -, rfl⟩ := push_eq h
  change (i : Int) ≤ q.top + 1 at hi
  change update q.cell (q.top + 1).toNat (some x) i = some y at hc
  rw [update_apply] at hc
  split at hc
  · exact .inr (some.inj hc).symm
  · exact .inl ⟨by omega, hc⟩

lemma mem_push (h : q.push cap x = some q') (hy : y ∈ q'.entries) : y ∈ q.entries ∨ y = x := by
  obtain ⟨i, hi, hc⟩ := mem_entries.mp hy
  exact (push_cell h hi hc).imp_left fun hc => mem_entries.mpr ⟨i, hc⟩

lemma mem_delete (hx : x ∈ (q.delete i).entries) : x ∈ q.entries := by
  obtain ⟨m, hm, hc⟩ := mem_entries.mp hx
  change (m : Int) ≤ q.top - 1 at hm
  change (q.shift i).cell m = some x at hc
  rw [shift_cell] at hc
  split at hc
  · exact mem_entries.mpr ⟨m + 1, by omega, hc⟩
  · exact mem_entries.mpr ⟨m, by omega, hc⟩

lemma mem_rem (hx : x ∈ (q.rem f).entries) : x ∈ q.entries := by
  have loop : ∀ n i (q : ArrQueue α), x ∈ (remLoop f n i q).entries → x ∈ q.entries := by
    intro n
    induction n with
    | zero => exact fun i q h => h
    | succ n ih =>
      intro i q h
      unfold remLoop at h
      split at h
      · have h' := ih (i + 1) _ h
        split at h'
        · exact mem_delete h'
        · exact h'
      · exact h
  exact loop _ _ q hx

/-! ## what `remSkip` keeps -/

lemma mem_remSkip (hx : x ∈ l) (hf : f x = false) : x ∈ remSkip f l := by
  fun_induction remSkip f l with
  | case1 => exact hx
  | case2 a ha =>
    rw [mem_singleton] at hx
    rw [hx, ha] at hf
    cases hf
  | case3 => exact hx
  | case4 a b l ha ih =>
    rcases mem_cons.mp hx with e | hx
    · rw [e, ha] at hf; cases hf
    · rcases mem_cons.mp hx with e | hx
      · rw [e]; exact mem_cons_self ..
      · exact mem_cons_of_mem _ (ih hx)
  | case5 a b l ha ih =>
    rcases mem_cons.mp hx with e | hx
    · rw [e]; exact mem_cons_self ..
    · exact mem_cons_of_mem _ (ih hx)

lemma remSkip_sublist (f : α → Bool) (l : List α) : (remSkip f l).Sublist l := by
  fun_induction remSkip f l with
  | case1 => exact List.Sublist.slnil
  | case2 => exact nil_sublist _
  | case3 => exact List.Sublist.refl _
  | case4 a b l ha ih => exact (ih.cons_cons b).cons a
  | case5 a b l ha ih => exact ih.cons_cons a

lemma remSkip_getElem? (hx : l[i]? = some x)
    (hf : ∀ j y, j ≤ i → l[j]? = some y → f y = false) : (remSkip f l)[i]? = some x := by
  induction l generalizing i with
  | nil => simp at hx
  | cons a l ih =>
    rw [remSkip_cons_neg (hf 0 a (Nat.zero_le i) rfl)]
    cases i with
    | zero => exact hx
    | succ => exact ih hx (fun j y hj hy => hf (j + 1) y (by omega) hy)

lemma remSkip_of_forall (h : ∀ x ∈ l, f x = false) : remSkip f l = l := by
  induction l with
  | nil => rfl
  | cons a l ih =>
    rw [remSkip_cons_neg (h a (mem_cons_self ..)), ih (fun x hx => h x (mem_cons_of_mem _ hx))]

/-- one hit at most: nothing that is passed over is a hit. -/
theorem remSkip_eq_filter (h : l.countP f ≤ 1) : remSkip f l = l.filter fun x => !f x := by
  induction l with
  | nil => rfl
  | cons a l ih =>
    rw [countP_cons] at h
    cases hfa : f a with
    | false => rw [remSkip_cons_neg hfa, ih (by omega), filter_cons_of_pos (by simp [hfa])]
    | true =>
      have hno : ∀ x ∈ l, f x = false := by
        simpa using countP_eq_zero.mp (by rw [hfa, if_pos rfl] at h; omega : l.countP f = 0)
      rw [remSkip_hit hfa, remSkip_of_forall fun x hx => hno x (mem_of_mem_drop hx), take_append_drop,
        filter_cons_of_neg (by simp [hfa]), filter_eq_self.mpr fun x hx => by simp [hno x hx]]

/-- when the hits are one value and the list has no repetition, nothing is passed over. -/
theorem not_mem_remSkip {z : α} (hl : l.Nodup)
    (hz : ∀ x ∈ l, f x = true → x = z) (hfz : f z = true) : z ∉ remSkip f l := by
  induction l with
  | nil => simp [remSkip]
  | cons a l ih =>
    obtain ⟨ha, hl'⟩ := nodup_cons.mp hl
    cases hfa : f a with
    | false =>
      rw [remSkip_cons_neg hfa, mem_cons, not_or]
      refine ⟨fun e => ?_, ih hl' (fun x hx => hz x (mem_cons_of_mem _ hx))⟩
      rw [← e, hfz] at hfa
      cases hfa
    | true =>
      have e := hz a (mem_cons_self ..) hfa
      subst e
      have hno : ∀ x ∈ l, f x = false := by
        intro x hx
        cases hfx : f x with
        | false => rfl
        | true => exact absurd (hz x (mem_cons_of_mem _ hx) hfx ▸ hx) ha
      rw [remSkip_hit hfa, remSkip_of_forall (fun x hx => hno x (mem_of_mem_drop hx)), take_append_drop]
      exact ha

lemma mem_eraseIdx_of_ne {L : List α} {m : α} (hi : L[i]? = some m)
    (hx : x ∈ L) (hne : x ≠ m) : x ∈ L.eraseIdx i := by
  obtain ⟨j, hj⟩ := mem_iff_getElem?.mp hx
  rw [mem_eraseIdx_iff_getElem?]
  refine ⟨j, ?_, hj⟩
  rintro rfl
  rw [hi] at hj
  exact hne (some.inj hj).symm

end ArrQueue
end Xv6.Lib
