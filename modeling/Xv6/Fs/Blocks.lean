import Xv6.Fs.Calls

/-!
# What the programs do to blocks and inodes

`Runs E m Q c` says what `m` does when it starts with the disk and the inode cache `c`, whatever the
log holds: it ends with a result and a core in `Q`, or it stops with a failure in `E`. `Does m Q c`
excludes two failures, a `bfree` of a free block and an `ilock` of a free inode; the functions below
`ilock` have neither. The rules for a sequence of statements are those of `wp`; a `log_write`
changes nothing here (`does_logWrite`).
-/

namespace Xv6.Fs
open Lib List

/-- a failure that is not "freeing free block", and not "ilock: no type". -/
def Safe (x : Stop) : Prop := x ≠ .panic "freeing free block" ∧ x ≠ .panic "ilock: no type"

instance : DecidablePred Safe := fun _ => inferInstanceAs (Decidable (_ ∧ _))

def Runs {α : Type} (E : Stop → Prop) (m : M α) (Q : α → Core → Prop) (c : Core) : Prop :=
  ∀ s : State, s.core = c → wp E m (fun a s => Q a s.core) s

abbrev Does {α : Type} (m : M α) (Q : α → Core → Prop) (c : Core) : Prop := Runs Safe m Q c

section
variable {α β : Type} {E E' : Stop → Prop} {m : M α} {f : α → M β} {Q Q' : α → Core → Prop}
  {R : β → Core → Prop} {c : Core} {g : Core → Core}

section
variable (h : Runs E m Q c)
include h

lemma Runs.seq (hf : ∀ a c', Q a c' → Runs E (f a) R c') : Runs E (m >>= f) R c := fun s hs =>
  wp_seq (h s hs) fun a s' hq => hf a s'.core hq s' rfl

lemma Runs.mono (hq : ∀ a c', Q a c' → Q' a c') : Runs E m Q' c := fun s hs =>
  wp_mono (h s hs) fun a s' => hq a s'.core

lemma Runs.up (hE : ∀ x, E x → E' x) : Runs E' m Q c := by
  intro s hs
  have h1 := (h s hs).elim
  cases hm : m s with
  | ok => exact wp_of_ok hm (h1.1 _ _ hm)
  | error x => exact wp_of_error hm (hE x (h1.2 _ hm))

lemma Runs.and (h' : Runs E' m Q' c) : Runs E m (fun a c' => Q a c' ∧ Q' a c') c := by
  intro s hs
  have h1 := (h s hs).elim
  have h2 := (h' s hs).elim
  cases hm : m s with
  | ok => exact wp_of_ok hm ⟨h1.1 _ _ hm, h2.1 _ _ hm⟩
  | error => exact wp_of_error hm (h1.2 _ hm)

end

lemma does_pure {a : α} (h : Q a c) : Runs E (pure a) Q c := by
  intro s hs
  rw [← hs] at h
  exact wp_pure h

lemma does_throw {x : Stop} (h : E x) : Runs E (throw x : M α) Q c := fun _ _ => wp_throw h

lemma does_get {f : Core → M β} (h : Runs E (f c) R c) : Runs E (getCore >>= f) R c := by
  intro s hs
  have e : wp E (f s.core) (fun b s => R b s.core) s := by
    rw [hs]
    exact h s hs
  exact e

lemma does_modify {Q : Unit → Core → Prop} (h : Q () (g c)) : Runs E (modifyCore g) Q c := by
  intro s hs
  rw [← hs] at h
  exact wp_modify h

lemma does_modify_seq {f : Unit → M β} (h : Runs E (f ()) R (g c)) : Runs E (modifyCore g >>= f) R c :=
  Runs.seq (does_modify (Q := fun _ c' => c' = g c) rfl) fun _ _ e => e ▸ h

lemma does_ite {p : Prop} [Decidable p] {m' : M α} (h : p → Runs E m Q c)
    (h' : ¬ p → Runs E m' Q c) : Runs E (if p then m else m') Q c := by
  by_cases hp : p
  · rw [if_pos hp]
    exact h hp
  · rw [if_neg hp]
    exact h' hp

end

/-! ## the log -/

variable {e : Env} {c : Core}

lemma does_logWrite (b : Nat) : Does (logWrite e b) (fun _ c' => c' = c) c := by
  intro s hs
  unfold logWrite
  apply wp_get_seq
  split
  · exact wp_throw (by decide)
  · split
    · exact wp_throw (by decide)
    · exact wp_set hs

lemma does_beginOp : Does beginOp (fun _ c' => c' = c) c := by
  intro s hs
  unfold beginOp
  apply wp_get_seq
  split
  · exact wp_throw (by decide)
  · exact wp_set hs

lemma does_endWith {α : Type} (r : α) : Does (endWith r) (fun a c' => a = r ∧ c' = c) c := by
  intro s hs
  exact wp_modify_seq (wp_pure ⟨rfl, hs⟩)

/-! ## blocks -/

lemma does_bread (b : Nat) : Does (bread e b) (fun x c' => e.nmeta ≤ b ∧ x = c.data b ∧ c' = c) c := by
  unfold bread
  refine does_get (does_ite (fun _ => does_throw (by decide)) fun _ => ?_)
  refine does_ite (fun _ => does_throw (by decide)) fun hb => does_pure ⟨?_, rfl, rfl⟩
  omega

lemma does_bread_data {E : Stop → Prop} {b : Nat} (hm : e.nmeta ≤ b) (hb : b < e.size) :
    Runs E (bread e b) (fun x c' => x = c.data b ∧ c' = c) c := by
  unfold bread
  refine does_get (does_ite (fun h => ?_) fun _ => does_ite (fun h => ?_) fun _ => does_pure ⟨rfl, rfl⟩)
  · exact absurd hb (Nat.not_lt.mpr h)
  · exact absurd h (Nat.not_lt.mpr hm)

lemma does_bwriteLog (b : Nat) (f : Block → Block) :
    Does (bwriteLog e b f) (fun _ c' => c' = c.setData b (f (c.data b))) c := by
  unfold bwriteLog
  refine (does_bread b).seq fun x c' ⟨_, hx, hc⟩ => ?_
  rw [hx, hc]
  exact does_modify_seq (does_logWrite b)

lemma does_balloc : Does (balloc e) (fun a c' => a < e.size ∧ c.used a = false ∧
    c' = (c.setUsed a true).setData a fun _ => 0) c := by
  unfold balloc
  apply does_get
  cases hf : (range e.size).find? fun b => !c.used b with
  | none => exact does_throw (by decide)
  | some a =>
    have ha : a < e.size := mem_range.mp (mem_of_find?_eq_some hf)
    have hu := find?_some hf
    refine does_modify_seq ((does_logWrite _).seq fun _ _ hc => ?_)
    rw [hc]
    refine (does_bwriteLog a fun _ _ => 0).seq fun _ _ hc => does_pure ⟨ha, ?_, hc⟩
    simpa using hu

lemma does_bfree {b : Nat} (hb : c.used b = true) : Does (bfree e b) (fun _ c' => c' = c.setUsed b false) c := by
  unfold bfree
  refine does_get (does_ite (fun h => ?_) fun _ => does_modify_seq (does_logWrite _))
  rw [hb] at h
  cases h

lemma does_iupdate (i : Ip) : Does (iupdate e i) (fun _ c' => c' = c.setDinode (c.inode i).inum (c.inode i).d) c := by
  unfold iupdate
  exact does_get (does_modify_seq (does_logWrite _))

end Xv6.Fs
