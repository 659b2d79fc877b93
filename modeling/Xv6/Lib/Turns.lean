import Mathlib.Data.List.Count
import Xv6.Lib.ArrQueue

/-!
# A queue whose entries take turns

The owner of a list of entries serves at most one of them at a time, `cur`. An entry that comes
back from service is taken out of the list and put at its end. Besides, entries may be lost, and
new ones are put at the end (`Move`).

Let `x` be served. `Due t x cur L`: `t` is due before `x`, because `x` is being served or `t` stands
before it. **Every move that does not serve `t` keeps `t` due** (`Due.move`), whatever place the
owner serves: only the end of the list is ever written. So an owner that comes back to `x` first
finds `t` in front of it (`Due.index`).
-/

namespace Xv6.Lib.Turns
open List Option

open ArrQueue (mem_eraseIdx_of_ne)

variable {α : Type} {t x : α} {cur cur' : Option α} {L L' : List α}

/-- `t` stands before `x` in the list. -/
def Before (t x : α) (L : List α) : Prop := ∃ l r, L = l ++ r ∧ t ∈ l ∧ x ∈ r

lemma before_concat (h : t ∈ L) : Before t x (L ++ [x]) :=
  ⟨L, [x], rfl, h, mem_singleton.mpr rfl⟩

lemma Before.append (h : Before t x L) (M : List α) : Before t x (L ++ M) := by
  obtain ⟨l, r, rfl, ht, hx⟩ := h
  exact ⟨l, r ++ M, append_assoc .., ht, mem_append_left _ hx⟩

section Once
variable [DecidableEq α]

lemma not_mem_of_count {y : α} {l r : List α} (hc : (l ++ r).count y ≤ 1) (hl : y ∈ l) : y ∉ r := by
  intro hr
  have h1 := count_pos_iff.mpr hl
  have h2 := count_pos_iff.mpr hr
  rw [count_append] at hc
  omega

lemma Before.sublist (h : Before t x L) (hs : L'.Sublist L) (ht : t ∈ L') (hx : x ∈ L')
    (hct : L.count t ≤ 1) (hcx : L.count x ≤ 1) : Before t x L' := by
  obtain ⟨l, r, rfl, htl, hxr⟩ := h
  obtain ⟨l', r', rfl, hl, hr⟩ := sublist_append_iff.mp hs
  refine ⟨l', r', rfl, ?_, ?_⟩
  · rcases mem_append.mp ht with h | h
    · exact h
    · exact absurd (hr.subset h) (not_mem_of_count hct htl)
  · rcases mem_append.mp hx with h | h
    · exact absurd hxr (not_mem_of_count hcx (hl.subset h))
    · exact h

lemma Before.index (h : Before t x L) (hcx : L.count x ≤ 1) {i : Nat} (hi : L[i]? = some x) :
    ∃ j, j < i ∧ L[j]? = some t := by
  obtain ⟨l, r, rfl, ht, hx⟩ := h
  have hle : l.length ≤ i := by
    by_contra hlt
    rw [List.getElem?_append_left (by omega)] at hi
    exact not_mem_of_count hcx (mem_of_getElem? hi) hx
  obtain ⟨j, hj⟩ := mem_iff_getElem?.mp ht
  have hlt := (List.getElem?_eq_some_iff.mp hj).1
  refine ⟨j, by omega, ?_⟩
  rw [List.getElem?_append_left hlt, hj]

end Once

/-! ## the moves of the owner -/

/-- the moves that do not serve `t`; an entry that does not come back to its place (`retire`) is
neither `t` nor `x`. -/
inductive Move (t x : α) : Option α → List α → Option α → List α → Prop
  | lose {cur : Option α} {L L' : List α} (h : L'.Sublist L) : Move t x cur L cur L'
  | add {cur : Option α} {L : List α} (M : List α) : Move t x cur L cur (L ++ M)
  | serve {y : α} {L : List α} (h : y ≠ t) : Move t x none L (some y) L
  | back {m : α} {i : Nat} {L : List α} (h : L[i]? = some m) :
      Move t x (some m) L none (L.eraseIdx i ++ [m])
  | retire {m : α} {i : Nat} {L : List α} (M : List α) (h : L[i]? = some m) (ht : m ≠ t)
      (hx : m ≠ x) : Move t x (some m) L none (L.eraseIdx i ++ M)

/-- `t` is not being served, and it comes before `x`. -/
def Due (t x : α) (cur : Option α) (L : List α) : Prop :=
  cur ≠ some t ∧ (cur = some x ∨ Before t x L)

lemma due_served (h : t ≠ x) : Due t x (some x) L :=
  ⟨fun e => h (some.inj e).symm, .inl rfl⟩

variable [DecidableEq α]

/-- **Every move keeps `t` due**, as long as `t` and `x` stand in the list once. -/
theorem Due.move (h : Due t x cur L) (hm : Move t x cur L cur' L') (ht : t ∈ L') (hx : x ∈ L')
    (hct : L.count t = 1) (hcx : L.count x = 1) : Due t x cur' L' := by
  obtain ⟨hcur, hdue⟩ := h
  have htL : t ∈ L := count_pos_iff.mp (by omega)
  have hxL : x ∈ L := count_pos_iff.mp (by omega)
  -- an entry other than `t` and `x` is taken out
  have erase : ∀ {m : α} {i : Nat} (M : List α), L[i]? = some m → m ≠ t → m ≠ x → Before t x L →
      Before t x (L.eraseIdx i ++ M) := by
    intro m i M hi hmt hmx hb
    apply Before.append
    exact hb.sublist (eraseIdx_sublist ..) (mem_eraseIdx_of_ne hi htL hmt.symm)
      (mem_eraseIdx_of_ne hi hxL hmx.symm) (by omega) (by omega)
  cases hm with
  | lose hs => exact ⟨hcur, hdue.imp_right fun hb => hb.sublist hs ht hx (by omega) (by omega)⟩
  | add M => exact ⟨hcur, hdue.imp_right fun hb => hb.append M⟩
  | serve hy =>
    refine ⟨fun e => hy (some.inj e), .inr ?_⟩
    exact hdue.resolve_left nofun
  | @back m i _ hi =>
    have hmt : m ≠ t := fun e => hcur (congrArg some e)
    refine ⟨nofun, .inr ?_⟩
    by_cases hmx : m = x
    · rw [hmx]
      exact before_concat (mem_eraseIdx_of_ne hi htL hmt.symm)
    · exact erase [m] hi hmt hmx (hdue.resolve_left fun e => hmx (some.inj e))
  | @retire m i _ M hi hmt hmx =>
    exact ⟨nofun, .inr (erase M hi hmt hmx (hdue.resolve_left fun e => hmx (some.inj e)))⟩

/-- **An owner that finds `x` while `t` is due has gone past `t`.** -/
theorem Due.index (h : Due t x none L) (hcx : L.count x = 1) {i : Nat} (hi : L[i]? = some x) :
    ∃ j, j < i ∧ L[j]? = some t :=
  (h.2.resolve_left nofun).index (by omega) hi

end Xv6.Lib.Turns
