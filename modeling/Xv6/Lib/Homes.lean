import Mathlib.Data.Fintype.Card
import Mathlib.Data.List.Perm.Subperm
import Mathlib.Logic.Function.Basic

/-!
# Lists in which everything stands once, and at home

A family of lists `L l`, and for every value the list in which it belongs (`home`, or nowhere).
`Homes L home` says that the lists hold nothing twice and every value only in its home, so no value
is in two lists (`Homes.apart`). The rules for editing such a family:

* `Homes.shrink`   entries are lost or permuted inside their list;
* `Homes.add`      a value that is in no list is appended to its home;
* `Homes.move`     a value leaves its list and is appended to its new home.

Over a finite type a list of the family has at most as many entries as there are values
(`Homes.length_le`), and fewer if one of them is elsewhere (`Homes.length_lt`).
-/

namespace Xv6.Lib
open Function List

variable {ι α : Type} {L L' : ι → List α} {home home' : α → Option ι} {x : α} {i : Nat}

structure Homes (L : ι → List α) (home : α → Option ι) : Prop where
  nodup : ∀ l, (L l).Nodup
  mem : ∀ l x, x ∈ L l → home x = some l

lemma cons_eraseIdx_perm {l : List α} (h : l[i]? = some x) : (x :: l.eraseIdx i).Perm l := by
  obtain ⟨hi, rfl⟩ := List.getElem?_eq_some_iff.mp h
  exact getElem_cons_eraseIdx_perm hi

namespace Homes

lemma apart (h : Homes L home) {l m : ι} (hl : x ∈ L l) (hm : x ∈ L m) : l = m := by
  have e := h.mem l x hl
  rw [h.mem m x hm] at e
  exact (Option.some.inj e).symm

lemma not_mem_eraseIdx (h : Homes L home) {l : ι} (hi : (L l)[i]? = some x) : x ∉ (L l).eraseIdx i := by
  have hn := (cons_eraseIdx_perm hi).nodup_iff.mpr (h.nodup l)
  exact (nodup_cons.mp hn).1

lemma shrink (h : Homes L home) (hL : ∀ l, (L' l).Subperm (L l))
    (hh : ∀ l x, x ∈ L' l → home x = some l → home' x = some l) : Homes L' home' := by
  refine ⟨fun l => ?_, fun l x hx => hh l x hx (h.mem l x ((hL l).subset hx))⟩
  obtain ⟨m, hp, hs⟩ := hL l
  exact hp.nodup_iff.mp (hs.nodup (h.nodup l))

variable [DecidableEq ι]

lemma add (h : Homes L home) {m : ι} (hx : ∀ l, x ∉ L l) (hm : home' x = some m)
    (ho : ∀ l y, y ∈ L l → home y = some l → home' y = some l) :
    Homes (update L m (L m ++ [x])) home' := by
  refine ⟨fun l => ?_, fun l y hy => ?_⟩
  · by_cases e : l = m
    · rw [e, update_self]
      apply List.Nodup.append (h.nodup m) (nodup_singleton x)
      intro y hy hy'
      rw [mem_singleton] at hy'
      exact hx m (hy' ▸ hy)
    · rw [update_of_ne e]
      exact h.nodup l
  · by_cases e : l = m
    · subst e
      rw [update_self] at hy
      rcases mem_append.mp hy with hy | hy
      · exact ho l y hy (h.mem l y hy)
      · rw [mem_singleton.mp hy]
        exact hm
    · rw [update_of_ne e] at hy
      exact ho l y hy (h.mem l y hy)

lemma move (h : Homes L home) {l m : ι} (hi : (L l)[i]? = some x) (hne : m ≠ l)
    (hm : home' x = some m) (ho : ∀ y, y ≠ x → home' y = home y) :
    Homes (update (update L m (L m ++ [x])) l ((L l).eraseIdx i)) home' := by
  -- first `x` leaves its list, then it is added to the other one
  have hout : Homes (update L l ((L l).eraseIdx i)) home := by
    refine h.shrink (fun j => ?_) (fun _ _ _ e => e)
    by_cases e : j = l
    · rw [e, update_self]
      exact (eraseIdx_sublist ..).subperm
    · rw [update_of_ne e]
  have hx : ∀ j, x ∉ update L l ((L l).eraseIdx i) j := by
    intro j hj
    by_cases e : j = l
    · rw [e, update_self] at hj
      exact h.not_mem_eraseIdx hi hj
    · rw [update_of_ne e] at hj
      exact e (h.apart hj (mem_of_getElem? hi))
  have hadd := hout.add hx hm fun j y hy e => by
    rw [ho y (fun e' => hx j (e' ▸ hy))]
    exact e
  rw [update_of_ne hne] at hadd
  rw [update_comm hne]
  exact hadd

omit [DecidableEq ι]
variable [Fintype α]

lemma length_le (h : Homes L home) (l : ι) : (L l).length ≤ Fintype.card α :=
  (h.nodup l).length_le_card

lemma length_lt (h : Homes L home) {l : ι} (hx : x ∉ L l) : (L l).length < Fintype.card α := by
  have hn : (x :: L l).Nodup := nodup_cons.mpr ⟨hx, h.nodup l⟩
  exact hn.length_le_card

end Homes
end Xv6.Lib
