import Xv6.Sys.Open

/-!
# Calls that fail

A call on a name that returns -1 leaves the disk and the tables as they were. The one exception is an
`open` with `O_CREATE` that has made the new file, and then finds no entry of the file table or no
descriptor for it: the file stays.
-/

namespace Xv6.Fs
open Lib Function

variable {e : Env} {K : Nat → Prop} {o : Option Edit} {c c' : Core}

lemma Idle.nothing (h : Idle e K c c') (hK : ∀ n x, c.node e n = some x → x.d.nlink = 0 → K n) : c.Same c' := by
  refine h.same (funext fun n => ?_)
  rcases h.nodes n with hn | ⟨-, hk, x, hx, hl⟩
  · exact hn
  · exact absurd (hK n x hx hl) hk

lemma short_up_down (v : Int) : short (short (v + 1) + -1) = short v := by
  unfold short
  rw [Int.bmod_add_bmod]
  congr 1
  omega

lemma Effect.nothing (h : Effect e K o c c') (ho : o = none ∨ ∃ m, o = some (.nolink m))
    (hK : ∀ n x, c.node e n = some x → x.d.nlink = 0 → K n)
    (hshort : ∀ n x, c.node e n = some x → short x.d.nlink = x.d.nlink) : c.Same c' := by
  rcases ho with ho | ⟨m, ho⟩ <;> cases ho
  · cases h with
    | idle h => exact h.nothing hK
  · cases h with
    | nolink h1 hm hd hu h2 hd' hv h3 =>
      rename_i c1 c2 c3 c4 d d'
      have hs1 := h1.nothing hK
      obtain ⟨x, hx, hn2, -, -⟩ := nolink_nodes hm hd hu h2 hd' hv
      have hs2 : c2.Same c3 := by
        refine h2.nothing fun n y hy hl => ?_
        by_cases hnm : n = m
        · exact .inr hnm
        · rw [hn2, update_of_ne hnm, hs1.node] at hy
          exact .inl (hK n y hy hl)
      have hback : d' = c1.dinode m := by
        rw [hd', hd]
        show ({ c1.dinode m with nlink := short (short ((c1.dinode m).nlink + 1) + -1) } : Dinode) = _
        rw [short_up_down, dinode_of_node hx, hshort m x (by rw [← hs1.node]; exact hx)]
      have hs4 : c.Same c4 := by
        refine ⟨?_, ?_, ?_⟩
        · rw [hv.used, hs2.used, hu.used, hs1.used]
        · rw [hv.dinode, hs2.dinode, hu.dinode, update_idem, hback, update_eq_self, hs1.dinode]
        · rw [hv.data, hs2.data, hu.data, hs1.data]
      exact hs4.trans (h3.nothing fun n y hy hl => hK n y (by rw [← hs4.node]; exact hy) hl)

lemma Effect.made {type major minor : Int} {n m : Nat} {name : List UInt8}
    (h : Effect e K (some (.make type major minor n name m)) c c')
    (hK : ∀ n x, c.node e n = some x → x.d.nlink = 0 → K n) :
    c.node e m = none ∧ c'.node e m ≠ none ∧ ∃ x, c.node e n = some x ∧ x.find name = none := by
  cases h with
  | make h1 hm h2 =>
    rw [← (h1.nothing hK).node]
    refine ⟨hm.free, ?_, ?_⟩
    · obtain ⟨y, hy, -, hl⟩ := hm.born
      rcases h2.nodes m with hn | ⟨-, -, z, hz, hl'⟩
      · rw [hn, hy]
        exact Option.some_ne_none y
      · rw [hy] at hz
        cases hz
        rw [hl] at hl'
        cases hl'
    · obtain ⟨x, y, z, hx, -, -, hz, -⟩ := hm.nodes
      have hnew := hz.new
      refine ⟨x, hx, ?_⟩
      split at hnew <;> exact hnew

end Xv6.Fs

namespace Xv6.Sys
open Lib Fs Function

/-- a new file is made only where it can be opened; `cn` is the number of the current directory. -/
def Op.hasRoom (e : Env) (s : State) (p : Slot) (cn : Nat) : Op → Prop
  | .open (some path) omode => omode &&& O_CREATE ≠ 0 →
      s.room p = true ∨ Old e s.fs.core (resolvePath (s.fs.core.node e) true cn path)
  | _ => True

variable {e : Env} {J T : Prop} {s s' t : State} {p : Slot} {cwd : Ip} {op : Op} {r : Int} {cn n : Nat}
  {o : Option Edit}

/-- what a failed call on a name may have done: nothing, or a link that it has taken back, or a new
file for which it had no room. -/
theorem Op.Does.failed (h : op.Does e s p cn (-1) o) (hn : op.named = true) :
    op.hasRoom e s p cn ∧ (o = none ∨ ∃ m, o = some (.nolink m)) ∨
    ∃ path omode n name m, op = .open (some path) omode ∧
      omode &&& O_CREATE ≠ 0 ∧ s.room p = false ∧ o = some (.make T_FILE 0 0 n name m) ∧
      resolvePath (s.fs.core.node e) true cn path = some (some (n, name)) := by
  cases op with
  | «open» path omode =>
    cases path with
    | none => exact .inl ⟨trivial, .inl h⟩
    | some path =>
      by_cases hc : omode &&& O_CREATE ≠ 0
      · obtain ⟨hm, hroom⟩ := h.creates hc
        cases o with
        | none => exact .inl ⟨fun _ => .inr hm, .inl rfl⟩
        | some x =>
          have hno := (hroom rfl).resolve_right (Option.some_ne_none x)
          cases x with
          | make type major minor n name m =>
            obtain ⟨⟨h1, h2, h3⟩, hw⟩ := hm
            rw [h1, h2, h3]
            exact .inr ⟨path, omode, n, name, m, rfl, hc, hno, rfl, hw⟩
          | link | nolink | unlink | write => exact hm.elim
      · exact .inl ⟨fun hc' => absurd hc' hc, .inl (h.opens hc)⟩
  | mkdir path | mknod path =>
    cases path with
    | none => exact .inl ⟨trivial, .inl h⟩
    | some => exact .inl ⟨trivial, .inl (h.2 rfl)⟩
  | link paths =>
    cases paths with
    | none => exact .inl ⟨trivial, .inl h⟩
    | some => exact .inl ⟨trivial, h⟩
  | unlink path =>
    cases path with
    | none | some => exact .inl ⟨trivial, .inl h⟩
  | chdir => exact .inl ⟨trivial, .inl h⟩
  | exec | dup | close | read | write | fstat | pipe | fork | exit => cases hn

end Xv6.Sys
