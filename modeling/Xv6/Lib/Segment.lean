import Mathlib.Data.List.Nodup
import Mathlib.Data.List.GetD
import Mathlib.Logic.Function.Basic

/-!
# Circular lists

`Seg next p L e`: from `p`, along `next`, come the elements of `L`, in this order, and then `e`. A circular list
that starts at `p` is `Seg next p L p`; its elements are those of `p :: L`.

    Seg.append  : a segment is two, one after the other;
    Seg.start   : another element is put in the place of the first one;
    Seg.skip    : an element is taken out;
    Seg.rotate  : a circular list starts at each of its elements;
    Seg.seek    : a search along the links finds the one element that it looks for;
    Seg.prev    : only one element links to an element.
-/

namespace Xv6.Lib
open Function List

variable {α : Type} {next next' : α → α} {p q b e : α} {L M : List α}

def Seg (next : α → α) : α → List α → α → Prop
  | p, [], e => next p = e
  | p, b :: L, e => next p = b ∧ Seg next b L e

/-- the first element from `p` on with `stop`, after at most `n` steps. -/
def seek (next : α → α) (stop : α → Bool) : Nat → α → Option α
  | 0, _ => none
  | n + 1, p => if stop p then some p else seek next stop n (next p)

namespace Seg

variable {stop : α → Bool} {r : α} {n : Nat}

lemma append : Seg next p (L ++ b :: M) e ↔ Seg next p L b ∧ Seg next b M e := by
  induction L generalizing p with
  | nil => exact Iff.rfl
  | cons c L ih =>
    show next p = c ∧ Seg next c (L ++ b :: M) e ↔ (next p = c ∧ Seg next c L b) ∧ Seg next b M e
    rw [ih, and_assoc]

section
variable (h : Seg next p L e)
include h

lemma congr (hn : ∀ x ∈ p :: L, next' x = next x) : Seg next' p L e := by
  induction L generalizing p with
  | nil => exact (hn p mem_cons_self).trans h
  | cons c L ih =>
    exact ⟨(hn p mem_cons_self).trans h.1, ih h.2 fun x hx => hn x (mem_cons_of_mem _ hx)⟩

lemma start (hq : next' q = next p) (hn : ∀ x ∈ L, next' x = next x) : Seg next' q L e := by
  cases L with
  | nil => exact hq.trans h
  | cons => exact ⟨hq.trans h.1, h.2.congr hn⟩

lemma last : next (L.getLastD p) = e := by
  induction L generalizing p with
  | nil => exact h
  | cons c L ih =>
    rw [getLastD_cons]
    exact ih h.2

lemma finish [DecidableEq α] (hd : (p :: L).Nodup) : Seg (update next (L.getLastD p) q) p L q := by
  induction L generalizing p with
  | nil => exact update_self ..
  | cons c L ih =>
    obtain ⟨h1, h2⟩ := nodup_cons.mp hd
    rw [getLastD_cons]
    have hne : p ≠ L.getLastD c := by
      rintro rfl
      exact h1 (getLastD_mem_cons ..)
    refine ⟨?_, ih h.2 h2⟩
    rw [update_of_ne hne]
    exact h.1

end

lemma skip [DecidableEq α] (h : Seg next p (L ++ b :: M) e) (hd : (p :: (L ++ M)).Nodup) :
    Seg (update next (L.getLastD p) (next b)) p (L ++ M) e := by
  obtain ⟨h1, h2⟩ := append.mp h
  cases M with
  | nil =>
    rw [append_nil] at hd ⊢
    rw [show next b = e from h2]
    exact h1.finish hd
  | cons c M =>
    rw [← cons_append] at hd
    obtain ⟨hd1, -, hd2⟩ := nodup_append.mp hd
    rw [h2.1]
    refine append.mpr ⟨h1.finish hd1, h2.2.congr fun x hx => update_of_ne ?_ ..⟩
    exact (hd2 _ (getLastD_mem_cons ..) x hx).symm

/-- a circular list can be started anywhere. -/
theorem rotate (h : Seg next p L p) (hq : q ∈ p :: L) : ∃ M, Seg next q M q ∧ (q :: M).Perm (p :: L) := by
  rcases mem_cons.mp hq with rfl | hq
  · exact ⟨L, h, .refl _⟩
  · obtain ⟨A, B, rfl⟩ := append_of_mem hq
    obtain ⟨h1, h2⟩ := append.mp h
    refine ⟨B ++ p :: A, append.mpr ⟨h2, h1⟩, ?_⟩
    exact @perm_append_comm _ (q :: B) (p :: A)

lemma seek_eq (h : Seg next p L e) (hr : r ∈ p :: L)
    (hstop : stop r = true) (hone : ∀ x ∈ p :: L, stop x = true → x = r) (hn : L.length < n) :
    seek next stop n p = some r := by
  rcases n with _ | n
  · omega
  induction L generalizing p n with
  | nil =>
    cases mem_singleton.mp hr
    exact if_pos hstop
  | cons c L ih =>
    unfold seek
    by_cases hp : stop p = true
    · rw [if_pos hp, hone p mem_cons_self hp]
    · rw [if_neg hp, h.1]
      have hrp : r ≠ p := by
        rintro rfl
        exact hp hstop
      rw [length_cons] at hn
      rcases n with _ | n
      · omega
      exact ih h.2 ((mem_cons.mp hr).resolve_left hrp) (fun x hx => hone x (mem_cons_of_mem _ hx)) n (by omega)

lemma seek (h : Seg next p L p) (hq : q ∈ p :: L) (hr : r ∈ p :: L)
    (hstop : stop r = true) (hone : ∀ x ∈ p :: L, stop x = true → x = r) (hn : L.length < n) :
    Lib.seek next stop n q = some r := by
  obtain ⟨M, hM, hperm⟩ := h.rotate hq
  have hlen := hperm.length_eq
  rw [length_cons, length_cons] at hlen
  exact hM.seek_eq (hperm.mem_iff.mpr hr) hstop (fun x hx => hone x (hperm.mem_iff.mp hx)) (by omega)

lemma seek_mono {m : Nat} (h : Lib.seek next stop n p = some r) (hm : n ≤ m) : Lib.seek next stop m p = some r := by
  induction n generalizing p m with
  | zero => cases h
  | succ n ih =>
    rcases m with _ | m
    · omega
    unfold Lib.seek at h ⊢
    split at h
    · next hp => rw [if_pos hp, h]
    · next hp =>
      rw [if_neg hp]
      exact ih h (by omega)

lemma prev (h : Seg next p (L ++ b :: M) e) (hd : (L ++ b :: M).Nodup) (he : e ∉ L ++ b :: M)
    (hq : q ∈ p :: (L ++ b :: M)) (hb : next q = b) : q = L.getLastD p := by
  induction L generalizing p with
  | nil =>
    rcases mem_cons.mp hq with rfl | hq
    · rfl
    · -- a later element links to a later one, or to `e`
      exfalso
      obtain ⟨h1, h2⟩ := h
      rw [nil_append] at hd he hq
      obtain ⟨A, B, hAB⟩ := append_of_mem hq
      have h3 : Seg next p (A ++ q :: B) e := by rw [← hAB]; exact ⟨h1, h2⟩
      obtain ⟨-, h4⟩ := append.mp h3
      cases B with
      | nil =>
        have h5 : next q = e := h4
        rw [hb] at h5
        exact he (h5 ▸ mem_cons_self)
      | cons c =>
        have h5 : next q = c := h4.1
        rw [hb] at h5
        subst h5
        rw [hAB] at hd
        cases A with
        | nil =>
          cases hAB
          exact (nodup_cons.mp hd).1 mem_cons_self
        | cons =>
          cases hAB
          apply (nodup_cons.mp hd).1
          simp
  | cons c L ih =>
    rw [getLastD_cons]
    obtain ⟨h1, h2⟩ := h
    rw [cons_append] at hd he hq
    have hd' := nodup_cons.mp hd
    apply ih h2 hd'.2 (fun hx => he (mem_cons_of_mem _ hx))
    rcases mem_cons.mp hq with rfl | hq
    · -- it links to `c`
      exfalso
      rw [h1] at hb
      subst hb
      exact hd'.1 (by simp)
    · exact hq

end Seg

end Xv6.Lib
