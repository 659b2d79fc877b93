import Xv6.Proc.Fates
import Xv6.Lib.History

/-!
# Parents, children and pids

What `fork`, `exit`, `wait` and `waitx` keep up between them, in three parts:

* `Pids k l`   the pids of the slots in use are below `nextpid` and distinct; the pids in `l`, which
               `wait` and `waitx` have returned so far, are distinct and not in use;
* `Kin k`      init is alive, and so is the parent of everybody else who has left `fork`;
* `Watch k`    whoever sleeps in `wait` or `waitx` has no ZOMBIE child.

Each part survives a step that leaves every process in a relation of its own (`SamePid`, `SameKin`,
`SameWatch`); what is left are `allocproc` and the freeing of a child for the first, `exit` and
the end of `fork` for the second, `exit` and the sleep in `wait` for the third. `Pids` needs that
`nextpid` does not wrap (`PidLeft`).
-/

namespace Xv6
open Lib Function List Kernel Option

variable {n : Nat} {pol : Policy} {s s' : State n} {k k' : Kernel}
variable {R : Proc → Proc → Prop} {p z np q : Slot} {r r' : Proc} {pc : ForkPc} {l : List Int} {ev : Event}
  {a : Action n} {npages need : Nat}

/-- made, and not a ZOMBIE. -/
def ProcState.alive : ProcState → Bool
  | .SLEEPING => true
  | .RUNNABLE => true
  | .RUNNING => true
  | _ => false

/-- has left `fork`: `fork` or `userinit` has made it RUNNABLE, and it is not freed. -/
def ProcState.made (st : ProcState) : Bool := st.alive || decide (st = .ZOMBIE)

/-- asleep inside `wait` or `waitx`. -/
def Proc.Waits (r : Proc) : Prop := r.state = .SLEEPING ∧ (r.context = .wait ∨ r.context = .waitx)

structure Pids (k : Kernel) (l : List Int) : Prop where
  next : 0 < k.nextpid
  pid : ∀ p, (k.core p).state ≠ .UNUSED → (k.core p).pid < k.nextpid
  inj : ∀ p q, (k.core p).state ≠ .UNUSED → (k.core q).state ≠ .UNUSED → (k.core p).pid = (k.core q).pid → p = q
  old : ∀ x ∈ l, x < k.nextpid ∧ ∀ p, (k.core p).state ≠ .UNUSED → (k.core p).pid ≠ x
  nodup : l.Nodup

structure Kin (k : Kernel) : Prop where
  init : (k.core k.initproc).state.alive = true ∧ (k.core k.initproc).parent = none
  self : ∀ p, (k.core p).parent ≠ some p
  parent : ∀ p, p ≠ k.initproc → (k.core p).state.made = true →
    ∃ q, (k.core p).parent = some q ∧ (k.core q).state.alive = true
  ready : ∀ p np, (k.core p).fork = .ready np → (k.core np).parent = some p

structure Watch (k : Kernel) : Prop where
  waits : ∀ p, (k.core p).Waits → (k.core p).chan = some (.proc p) ∧
    ∀ z, (k.core z).parent = some p → (k.core z).state ≠ .ZOMBIE

lemma ProcState.made_of_alive {st : ProcState} (h : st.alive = true) : st.made = true := by
  unfold made
  rw [h]; rfl

/-! ## changes of one process -/

lemma Kernel.core_rel (hR : ∀ r, R r r) (h : k'.core = update k.core p r) (hp : R (k.core p) r)
    (q : Slot) : R (k.core q) (k'.core q) := by
  rw [h, update_apply]
  split
  · next e => rw [e]; exact hp
  · exact hR _

lemma Kernel.core_rel2 (hR : ∀ r, R r r) (h : k'.core = update (update k.core p r) z r')
    (hp : R (k.core p) r) (hz : R (k.core z) r') (q : Slot) : R (k.core q) (k'.core q) := by
  rw [h, update_apply, update_apply]
  split
  · next e => rw [e]; exact hz
  · split
    · next e => rw [e]; exact hp
    · exact hR _

lemma Kernel.ForkTo.rel (hR : ∀ r, R r r) (h : k.ForkTo k' p np r pc) (hn : R (k.core np) r)
    (hp : R (k.core p) { k.core p with fork := pc }) : ∀ q, R (k.core q) (k'.core q) :=
  core_rel2 hR h hn hp

lemma Kernel.ForkTo.at (h : k.ForkTo k' p np r pc)
    (hne : np ≠ p) : k'.core p = { k.core p with fork := pc } ∧ k'.core np = r ∧
      ∀ q, q ≠ p → q ≠ np → k'.core q = k.core q := by
  unfold ForkTo at h
  refine ⟨?_, ?_, fun q hp hn => ?_⟩
  · rw [h, update_self]
  · rw [h, update_of_ne hne, update_self]
  · rw [h, update_of_ne hp, update_of_ne hn]

/-- whoever is in use was in use, with the same pid. -/
def SamePid (r r' : Proc) : Prop := r'.state ≠ .UNUSED → r.state ≠ .UNUSED ∧ r'.pid = r.pid

/-- nobody dies or leaves `fork`; only a freed ZOMBIE loses its parent. -/
structure SameKin (r r' : Proc) : Prop where
  alive : r.state.alive = true → r'.state.alive = true
  made : r'.state.made = true → r.state.made = true
  parent : r'.parent = r.parent ∨ r.state = .ZOMBIE ∧ r'.parent = none ∧ r'.state = .UNUSED
  fork : ∀ np, r'.fork = .ready np → r.fork = .ready np

/-- nobody goes to sleep in `wait`, and nobody becomes a ZOMBIE. -/
structure SameWatch (r r' : Proc) : Prop where
  waits : r'.Waits → r.Waits ∧ r'.chan = r.chan
  zombie : r'.state = .ZOMBIE → r.state = .ZOMBIE ∧ r'.parent = r.parent

/-- all three. -/
structure Steady (r r' : Proc) : Prop where
  pid : SamePid r r'
  kin : SameKin r r'
  watch : SameWatch r r'

lemma SamePid.refl (r : Proc) : SamePid r r := fun h => ⟨h, rfl⟩
lemma SameKin.refl (r : Proc) : SameKin r r := ⟨id, id, .inl rfl, fun _ h => h⟩
lemma SameWatch.refl (r : Proc) : SameWatch r r := ⟨fun h => ⟨h, rfl⟩, fun h => ⟨h, rfl⟩⟩
lemma Steady.refl (r : Proc) : Steady r r := ⟨.refl r, .refl r, .refl r⟩

lemma Steady.same (hp : r'.pid = r.pid) (hq : r'.parent = r.parent)
    (hs : r'.state = r.state) (hf : ∀ np, r'.fork = .ready np → r.fork = .ready np)
    (hw : r'.state = .SLEEPING → r'.context = r.context ∧ r'.chan = r.chan) : Steady r r' := by
  refine ⟨fun hu => ⟨by rw [← hs]; exact hu, hp⟩, ⟨?_, ?_, .inl hq, hf⟩, ⟨fun h => ?_, fun h => ?_⟩⟩
  · rw [hs]; exact id
  · rw [hs]; exact id
  · obtain ⟨hc, hch⟩ := hw h.1
    unfold Proc.Waits at h ⊢
    rw [hs, hc] at h
    exact ⟨h, hch⟩
  · exact ⟨by rw [← hs]; exact h, hq⟩

lemma Steady.living (hp : r'.pid = r.pid) (hq : r'.parent = r.parent) (hf : r'.fork = r.fork)
    (hs : r.state.alive = true) (hs' : r'.state.alive = true) (hw : ¬ r'.Waits) : Steady r r' := by
  refine ⟨fun _ => ⟨fun e => ?_, hp⟩,
    ⟨fun _ => hs', fun _ => ProcState.made_of_alive hs, .inl hq, fun np h => by rw [← hf, h]⟩,
    ⟨fun h => absurd h hw, fun e => ?_⟩⟩
  · rw [e] at hs; cases hs
  · rw [e] at hs'; cases hs'

lemma Woken.steady (h : Woken r r') : Steady r r' := by
  rcases h with e | ⟨hs, e⟩
  · rw [e]; exact .refl r
  · rw [e]
    exact .living rfl rfl rfl (by rw [hs]; rfl) rfl fun hw => by cases hw.1

/-! ## pids -/

lemma Pids.same (h : Pids k l) (hn : k'.nextpid = k.nextpid)
    (hs : ∀ q, SamePid (k.core q) (k'.core q)) : Pids k' l := by
  refine ⟨by rw [hn]; exact h.next, fun p hu => ?_, fun p q hp hq e => ?_, fun x hx => ?_, h.nodup⟩
  · obtain ⟨hu', e⟩ := hs p hu
    rw [e, hn]
    exact h.pid p hu'
  · obtain ⟨hp', e1⟩ := hs p hp
    obtain ⟨hq', e2⟩ := hs q hq
    rw [e1, e2] at e
    exact h.inj p q hp' hq' e
  · obtain ⟨h1, h2⟩ := h.old x hx
    refine ⟨by rw [hn]; exact h1, fun p hu => ?_⟩
    obtain ⟨hu', e⟩ := hs p hu
    rw [e]
    exact h2 p hu'

lemma Pids.alloc {l : List Int} {np : Slot} (h : Pids k l)
    (hn : k'.nextpid = k.nextpid + 1) (hp : (k'.core np).pid = k.nextpid)
    (hs : ∀ q, q ≠ np → SamePid (k.core q) (k'.core q)) : Pids k' l := by
  have hmax : ∀ q, q ≠ np → (k'.core q).state ≠ .UNUSED → (k'.core q).pid < k.nextpid := by
    intro q hq hu
    obtain ⟨hu', e⟩ := hs q hq hu
    rw [e]
    exact h.pid q hu'
  refine ⟨by have := h.next; omega, fun q hu => ?_, fun q q' hu hu' e => ?_, fun x hx => ?_, h.nodup⟩
  · by_cases e : q = np
    · rw [e, hp]; omega
    · have := hmax q e hu; omega
  · by_cases e1 : q = np <;> by_cases e2 : q' = np
    · rw [e1, e2]
    · have := hmax q' e2 hu'
      rw [e1] at e
      omega
    · have := hmax q e1 hu
      rw [e2] at e
      omega
    · obtain ⟨hv, e3⟩ := hs q e1 hu
      obtain ⟨hv', e4⟩ := hs q' e2 hu'
      rw [e3, e4] at e
      exact h.inj q q' hv hv' e
  · obtain ⟨h1, h2⟩ := h.old x hx
    refine ⟨by omega, fun q hu => ?_⟩
    by_cases e : q = np
    · rw [e]; omega
    · obtain ⟨hu', e'⟩ := hs q e hu
      rw [e']
      exact h2 q hu'

lemma Pids.free (h : Pids k l) (hn : k'.nextpid = k.nextpid)
    (hz : (k.core z).state ≠ .UNUSED) (hz' : (k'.core z).state = .UNUSED)
    (hs : ∀ q, SamePid (k.core q) (k'.core q)) : Pids k' (l ++ [(k.core z).pid]) := by
  have h' := h.same hn hs
  refine ⟨h'.next, h'.pid, h'.inj, fun x hx => ?_, ?_⟩
  · rcases mem_append.mp hx with hx | hx
    · exact h'.old x hx
    · rw [mem_singleton.mp hx]
      refine ⟨by rw [hn]; exact h.pid z hz, fun q hu e => ?_⟩
      obtain ⟨hu', e'⟩ := hs q hu
      have hqz : q = z := h.inj q z hu' hz (by rw [← e', e])
      exact hu (by rw [hqz, hz'])
  · rw [nodup_append]
    refine ⟨h.nodup, nodup_singleton _, fun x hx y hy e => ?_⟩
    rw [mem_singleton.mp hy] at e
    exact (h.old x hx).2 z hz e.symm

/-! ## parents -/

section
variable (h : Kin k) (ho : ForkOk k) (hi : k'.initproc = k.initproc)
include h ho hi

/-- a ZOMBIE is freed, but it is not the child of a `fork`. -/
theorem Kin.same (hs : ∀ q, SameKin (k.core q) (k'.core q)) : Kin k' := by
  have hpar : ∀ q, (k'.core q).state.made = true ∨ (k.core q).state ≠ .ZOMBIE →
      (k'.core q).parent = (k.core q).parent := by
    intro q hq
    rcases (hs q).parent with e | ⟨e, -, e'⟩
    · exact e
    · rcases hq with e'' | e''
      · rw [e'] at e''; cases e''
      · exact absurd e e''
  refine ⟨?_, fun p => ?_, fun p hp hm => ?_, fun p np hf => ?_⟩
  · have ha := (hs _).alive h.init.1
    rw [hi, hpar _ (.inl (ProcState.made_of_alive ha))]
    exact ⟨ha, h.init.2⟩
  · rcases (hs p).parent with e | ⟨-, e, -⟩
    · rw [e]; exact h.self p
    · rw [e]; nofun
  · rw [hi] at hp
    obtain ⟨q, e, ha⟩ := h.parent p hp ((hs p).made hm)
    exact ⟨q, by rw [hpar p (.inl hm), e], (hs q).alive ha⟩
  · have hf' := (hs p).fork np hf
    have he : (k.core np).state = .EMBRYO := by
      apply ho.embryo p np
      show (k.core p).fork.child = some np
      rw [hf']; rfl
    rw [hpar np (.inr (by rw [he]; nofun))]
    exact h.ready p np hf'

lemma Kin.copied
    (hne : np ≠ p) (hf : (k.core p).fork = .copyuvm np)
    (hk : k.ForkTo k' p np { k.core np with parent := some p } (.ready np)) : Kin k' := by
  obtain ⟨ep, en, eo⟩ := hk.at hne
  have hc : _ = some np := congrArg ForkPc.child hf
  have he : (k.core np).state = .EMBRYO := ho.embryo p np hc
  have hst : ∀ q, (k'.core q).state = (k.core q).state :=
    hk.rel (R := fun r r' => r'.state = r.state) (fun _ => rfl) rfl rfl
  have hpar : ∀ q, q ≠ np → (k'.core q).parent = (k.core q).parent := by
    intro q e
    by_cases e' : q = p
    · rw [e', ep]
    · rw [eo q e' e]
  have hnp : ∀ q, (k.core q).state.made = true → q ≠ np := by
    intro q hm e
    rw [e, he] at hm
    cases hm
  refine ⟨?_, fun q => ?_, fun q hq hm => ?_, fun q x hx => ?_⟩
  · rw [hi, hst, hpar _ (hnp _ (ProcState.made_of_alive h.init.1))]
    exact h.init
  · by_cases e : q = np
    · rw [e, en]
      exact fun e' => hne (some.inj e').symm
    · rw [hpar q e]
      exact h.self q
  · rw [hi] at hq
    rw [hst] at hm
    obtain ⟨x, hx, ha⟩ := h.parent q hq hm
    exact ⟨x, by rw [hpar q (hnp q hm), hx], by rw [hst, ha]⟩
  · by_cases e : q = p
    · rw [e, ep] at hx
      cases hx
      rw [e, en]
    · have hx' : (k.core q).fork = .ready x := by
        by_cases e' : q = np
        · rw [e', en] at hx; rw [e']; exact hx
        · rw [eo q e e'] at hx; exact hx
      have hxn : x ≠ np := by
        intro e'
        apply e
        refine ho.inj q p np ?_ hc
        show (k.core q).fork.child = some np
        rw [hx', e']; rfl
      rw [hpar x hxn]
      exact h.ready q x hx'

end

lemma Kin.readied (h : Kin k) (hi : k'.initproc = k.initproc) (hne : np ≠ p)
    (hr : (k.core p).state = .RUNNING) (hf : (k.core p).fork = .ready np)
    (hk : k.ForkTo k' p np { k.core np with state := .RUNNABLE } .none) : Kin k' := by
  obtain ⟨ep, en, eo⟩ := hk.at hne
  have hpar : ∀ q, (k'.core q).parent = (k.core q).parent :=
    hk.rel (R := fun r r' => r'.parent = r.parent) (fun _ => rfl) rfl rfl
  have halive : ∀ q, (k.core q).state.alive = true → (k'.core q).state.alive = true :=
    hk.rel (R := fun r r' => r.state.alive = true → r'.state.alive = true) (fun _ => id) (fun _ => rfl) id
  refine ⟨?_, fun q => ?_, fun q hq hm => ?_, fun q x hx => ?_⟩
  · rw [hi, hpar]
    exact ⟨halive _ h.init.1, h.init.2⟩
  · rw [hpar]
    exact h.self q
  · rw [hi] at hq
    rw [hpar]
    by_cases e : q = np
    · rw [e]
      exact ⟨p, h.ready p np hf, halive p (by rw [hr]; rfl)⟩
    · have hm' : (k.core q).state.made = true := by
        by_cases e' : q = p
        · rw [e', hr]; rfl
        · rw [eo q e' e] at hm; exact hm
      obtain ⟨x, hx, ha⟩ := h.parent q hq hm'
      exact ⟨x, hx, halive x ha⟩
  · rw [hpar]
    by_cases e : q = p
    · rw [e, ep] at hx; cases hx
    · by_cases e' : q = np
      · rw [e', en] at hx
        rw [e']
        exact h.ready np x hx
      · rw [eo q e e'] at hx
        exact h.ready q x hx

/-! ## exit -/

section
variable (he : Exited k k' p)
include he

lemma Exited.rest (q : Slot) :
    (k'.core q).pid = (k.core q).pid ∧ (k'.core q).fork = (k.core q).fork ∧
      (k'.core q).chan = (k.core q).chan ∧ (k'.core q).context = (k.core q).context := by
  by_cases e : q = p
  · obtain ⟨par, h⟩ := he.self
    rw [e, h]; exact ⟨rfl, rfl, rfl, rfl⟩
  · obtain ⟨st, par, h, -⟩ := he.others q e
    rw [h]; exact ⟨rfl, rfl, rfl, rfl⟩

lemma Exited.state (hq : q ≠ p) : (k'.core q).state = (k.core q).state ∨
      (k.core q).state = .SLEEPING ∧ (k'.core q).state = .RUNNABLE := by
  obtain ⟨st, par, h, h1⟩ := he.others q hq
  rw [h]; exact h1

lemma Exited.samePid (hr : (k.core p).state = .RUNNING) (q : Slot) : SamePid (k.core q) (k'.core q) := by
  refine fun hu => ⟨fun e => ?_, (he.rest q).1⟩
  by_cases e' : q = p
  · rw [e', hr] at e; cases e
  · rcases he.state e' with h | ⟨h, -⟩
    · exact hu (h.trans e)
    · rw [h] at e; cases e

lemma Exited.alive (hq : q ≠ p) : (k'.core q).state.alive = (k.core q).state.alive := by
  rcases he.state hq with e | ⟨e, e'⟩
  · rw [e]
  · rw [e, e']; rfl

/-- the children of `p` go to init, every other parent lives on. -/
theorem Exited.kin (h : Kin k) (hi : k'.initproc = k.initproc)
    (hp : p ≠ k.initproc) (hr : (k.core p).state = .RUNNING) (hf : (k.core p).fork = .none) :
    Kin k' := by
  have hia : (k'.core k.initproc).state.alive = true := by
    rw [he.alive hp.symm]
    exact h.init.1
  refine ⟨?_, fun q hq => ?_, fun q hq hm => ?_, fun q np hq => ?_⟩
  · rw [hi, he.parent, h.init.2]
    exact ⟨hia, rfl⟩
  · rw [he.parent q] at hq
    split at hq
    · next e =>
      -- init has no parent, so the child that it takes over is not init
      rw [← some.inj hq, h.init.2] at e
      cases e
    · exact h.self q hq
  · rw [hi] at hq
    have hm' : (k.core q).state.made = true := by
      by_cases e : q = p
      · rw [e, hr]; rfl
      · rcases he.state e with e' | ⟨e', -⟩
        · rw [e'] at hm; exact hm
        · rw [e']; rfl
    obtain ⟨x, hx, ha⟩ := h.parent q hq hm'
    rw [he.parent q]
    split
    · exact ⟨_, rfl, hia⟩
    · next e =>
      have hxp : x ≠ p := by
        intro e'
        exact e (by rw [hx, e'])
      exact ⟨x, hx, by rw [he.alive hxp]; exact ha⟩
  · rw [(he.rest q).2.1] at hq
    have hpar := h.ready q np hq
    rw [he.parent np, if_neg]
    · exact hpar
    · intro e
      rw [hpar] at e
      rw [some.inj e, hf] at hq
      cases hq

/-- whoever still sleeps in `wait` has no child among the ZOMBIEs that `exit` leaves. -/
theorem Exited.watch (h : Watch k) (hk : Kin k) : Watch k' := by
  refine ⟨fun q hw => ?_⟩
  have hqp : q ≠ p := by
    obtain ⟨par, hself⟩ := he.self
    intro e
    have := hw.1
    rw [e, hself] at this
    cases this
  have hw' : (k.core q).Waits := by
    refine ⟨?_, by rw [← (he.rest q).2.2.2]; exact hw.2⟩
    rcases he.state hqp with e | ⟨e, -⟩
    · rw [← e]; exact hw.1
    · exact e
  obtain ⟨h1, h2⟩ := h.waits q hw'
  obtain ⟨hw1, hw2⟩ := he.wakes q hw.1
  refine ⟨by rw [(he.rest q).2.2.1]; exact h1, fun z hz hzz => ?_⟩
  rw [he.parent z] at hz
  by_cases e : z = p
  · -- `p` itself: its parent was woken first
    rw [e, if_neg (hk.self p)] at hz
    exact hw1 q hz h1
  · have hzz' : (k.core z).state = .ZOMBIE := by
      rcases he.state e with e' | ⟨-, e'⟩
      · rw [← e']; exact hzz
      · rw [e'] at hzz; cases hzz
    split at hz
    · next e' =>
      -- a ZOMBIE that init takes over: init was woken
      apply hw2 ⟨z, e', hzz'⟩
      rw [h1, some.inj hz]
    · exact h2 z hz hzz'

end

/-! ## every step -/

lemma Watch.same (h : Watch k) (hs : ∀ q, SameWatch (k.core q) (k'.core q)) : Watch k' := by
  refine ⟨fun p hw => ?_⟩
  obtain ⟨hw', hc⟩ := (hs p).waits hw
  obtain ⟨h1, h2⟩ := h.waits p hw'
  refine ⟨hc.trans h1, fun z hz hzz => ?_⟩
  obtain ⟨hzz', e⟩ := (hs z).zombie hzz
  rw [e] at hz
  exact h2 z hz hzz'

/-- a process that goes to sleep in `wait` has found no ZOMBIE child. -/
theorem Watch.block {p : Slot} {r : Proc} (h : Watch k)
    (hk : k'.core = update k.core p r) (hz : k.zombieChild p = none)
    (hc : r.chan = some (.proc p)) (hr : r.state ≠ .ZOMBIE) : Watch k' := by
  have hzs : ∀ z, (k'.core z).state = .ZOMBIE → (k.core z).state = .ZOMBIE ∧ (k'.core z).parent = (k.core z).parent :=
    core_rel (R := fun r r' => r'.state = .ZOMBIE →
      r.state = .ZOMBIE ∧ r'.parent = r.parent) (fun _ h => ⟨h, rfl⟩) hk fun e => absurd e hr
  have hno : ∀ z, (k.core z).parent = some p → (k.core z).state ≠ .ZOMBIE := by
    intro z hz1 hz2
    have hn := List.find?_eq_none.mp hz z (mem_finRange z)
    apply hn
    simp only [Bool.and_eq_true, decide_eq_true_eq]
    exact ⟨hz1, hz2⟩
  refine ⟨fun q hw => ?_⟩
  have hq : (k'.core q).chan = some (.proc q) ∧ ∀ z, (k.core z).parent = some q → (k.core z).state ≠ .ZOMBIE := by
    by_cases e : q = p
    · rw [e, hk, update_self]
      exact ⟨hc, hno⟩
    · rw [hk, update_of_ne e] at hw ⊢
      exact h.waits q hw
  refine ⟨hq.1, fun z hz1 hz2 => ?_⟩
  obtain ⟨hz3, e⟩ := hzs z hz2
  rw [e] at hz1
  exact hq.2 z hz1 hz3

/-- the step does not make `nextpid` wrap. -/
def PidLeft (k : Kernel) (ev : Event) : Prop := ∀ np, ev = .alloc np → k.nextpid + 1 < 2 ^ 31

instance (k : Kernel) (ev : Event) : Decidable (PidLeft k ev) :=
  inferInstanceAs (Decidable (∀ np : Slot, ev = .alloc np → k.nextpid + 1 < 2 ^ 31))

/-- who comes back from `wait` or `waitx`, and with which pid. -/
def Event.returns (k : Kernel) : Event → Option (Slot × Int)
  | .reap p z _ => some (p, (k.core z).pid)
  | _ => none

def Event.freed (k : Kernel) (ev : Event) : List Int := ((ev.returns k).map Prod.snd).toList

structure Family (k : Kernel) (l : List Int) : Prop where
  pids : Pids k l
  kin : Kin k
  watch : Watch k

lemma Family.steady (h : Family k l) (ho : ForkOk k)
    (hn : k'.nextpid = k.nextpid) (hi : k'.initproc = k.initproc)
    (hs : ∀ q, Steady (k.core q) (k'.core q)) : Family k' (l ++ []) := by
  rw [append_nil]
  exact ⟨h.pids.same hn fun q => (hs q).pid, h.kin.same ho hi fun q => (hs q).kin, h.watch.same fun q => (hs q).watch⟩

lemma Steady.forker (h : ∀ np, pc ≠ .ready np) : Steady r { r with fork := pc } :=
  .same rfl rfl rfl (fun np e => absurd e (h np)) fun _ => ⟨rfl, rfl⟩

lemma Steady.unchan {ch : Option Chan} (hr : r.state = .RUNNING) : Steady r { r with chan := ch } :=
  .same rfl rfl rfl (fun _ e => e) fun e => by
    rw [show r.state = .SLEEPING from e] at hr
    cases hr

/-- **Every step keeps the families.** -/
theorem Family.keep (h : Family k l) (ho : ForkOk k)
    (ht : Turn k k' ev) (hp : PidLeft k ev) : Family k' (l ++ ev.freed k) := by
  obtain ⟨hf, -, hn, hi⟩ := ht
  have awake : ∀ {r : Proc}, r.state ≠ .SLEEPING → ¬ r.Waits := fun hs hw => hs hw.1
  have embryo : ∀ {p np : Slot}, (k.core p).fork.child = some np → (k.core np).state = .EMBRYO :=
    fun hc => ho.embryo _ _ hc
  have child : ∀ {p np : Slot}, (k.core p).state = .RUNNING → (k.core p).fork.child = some np → np ≠ p := by
    intro p np hr hc e
    have he := embryo hc
    rw [e, hr] at he
    cases he
  cases hf with
  | wake hk => exact h.steady ho hn hi fun q => (hk q).steady
  | unchan hr hk => exact h.steady ho hn hi (core_rel Steady.refl hk (.unchan hr))
  | dispatch hr hk | yield hr hk =>
    refine h.steady ho hn hi (core_rel Steady.refl hk ?_)
    exact .living rfl rfl rfl (by rw [hr]; rfl) rfl (awake nofun)
  | sleep hr hk =>
    refine h.steady ho hn hi (core_rel Steady.refl hk ?_)
    refine .living rfl rfl rfl (by rw [hr]; rfl) rfl fun hw => ?_
    rcases hw.2 with e | e <;> cases e
  | @waitBlock p x hr hz hk =>
    show Family k' (l ++ [])
    rw [append_nil]
    refine ⟨h.pids.same hn (core_rel SamePid.refl hk ?_),
      h.kin.same ho hi (core_rel SameKin.refl hk ?_), h.watch.block hk hz rfl nofun⟩
    · exact fun _ => ⟨by rw [hr]; nofun, rfl⟩
    · exact ⟨fun _ => rfl, fun _ => by rw [hr]; rfl, .inl rfl, fun _ e => e⟩
  | @exit p hr hf hpi hk =>
    show Family k' (l ++ [])
    rw [append_nil]
    exact ⟨h.pids.same hn (hk.samePid hr), hk.kin h.kin hi hpi hr hf, hk.watch h.watch h.kin⟩
  | @forkFail p np hr hc hk =>
    refine h.steady ho hn hi (hk.rel Steady.refl ?_ (.forker fun _ => nofun))
    have he := embryo hc
    refine ⟨fun hu => absurd rfl hu, ⟨?_, nofun, .inl rfl, fun _ e => e⟩, ⟨nofun, nofun⟩⟩
    rw [he]
    nofun
  | @forkStack p np hr hf hk =>
    have hc : _ = some np := congrArg ForkPc.child hf
    have he := embryo hc
    refine h.steady ho hn hi (hk.rel Steady.refl ?_ (.forker fun _ => nofun))
    exact .same rfl rfl rfl nofun fun e => by rw [show (k.core np).state = _ from e] at he; cases he
  | @forkCopy p np hr hf hk =>
    have hc : _ = some np := congrArg ForkPc.child hf
    have he := embryo hc
    show Family k' (l ++ [])
    rw [append_nil]
    refine ⟨h.pids.same hn (hk.rel SamePid.refl (fun hu => ⟨hu, rfl⟩) fun hu => ⟨hu, rfl⟩),
      h.kin.copied ho hi (child hr hc) hf hk, h.watch.same (hk.rel SameWatch.refl ?_ ?_)⟩
    · exact ⟨fun hw => ⟨hw, rfl⟩, fun e => by rw [show (k.core np).state = _ from e] at he; cases he⟩
    · exact ⟨fun hw => ⟨hw, rfl⟩, fun e => ⟨e, rfl⟩⟩
  | tick hk => exact h.steady ho hn hi fun q => by rw [hk]; exact .refl _
  | charge hr hk =>
    refine h.steady ho hn hi (core_rel Steady.refl hk ?_)
    exact .same rfl rfl rfl (fun _ e => e) fun _ => ⟨rfl, rfl⟩
  | @alloc p np hr hf hu hk =>
    have hne : np ≠ p := by
      intro e
      rw [e, hr] at hu
      cases hu
    have hn' : k'.nextpid = k.nextpid + 1 := by
      have h1 := h.pids.next
      have h2 := hp np rfl
      have e : int32 (k.nextpid + 1) = k.nextpid + 1 := by
        unfold int32
        exact Int.bmod_eq_of_le (by omega) (by omega)
      exact hn.trans e
    obtain ⟨ep, en, eo⟩ := hk.at hne
    show Family k' (l ++ [])
    rw [append_nil]
    have hs : Steady (k.core p) { k.core p with fork := .kalloc np } := .forker fun _ => nofun
    have hnp : (k'.core np).pid = k.nextpid := by rw [en]
    refine ⟨h.pids.alloc hn' hnp fun q hq => ?_, h.kin.same ho hi (hk.rel SameKin.refl ?_ hs.kin),
      h.watch.same (hk.rel SameWatch.refl ⟨nofun, nofun⟩ hs.watch)⟩
    · by_cases e : q = p
      · rw [e, ep]; exact fun hu => ⟨hu, rfl⟩
      · rw [eo q e hq]; exact .refl _
    · exact ⟨by rw [hu]; nofun, nofun, .inl rfl, fun _ e => e⟩
  | create hr hf hk =>
    refine h.steady ho hn hi (hk.rel Steady.refl ?_ (.forker fun _ => nofun))
    exact .same rfl rfl rfl (fun _ e => e) fun _ => ⟨rfl, rfl⟩
  | @ready p np hr hf hk =>
    have hc : _ = some np := congrArg ForkPc.child hf
    have he := embryo hc
    show Family k' (l ++ [])
    rw [append_nil]
    have hs : Steady (k.core p) { k.core p with fork := .none } := .forker fun _ => nofun
    refine ⟨h.pids.same hn (hk.rel SamePid.refl ?_ hs.pid), h.kin.readied hi (child hr hc) hr hf hk,
      h.watch.same (hk.rel SameWatch.refl ⟨nofun, nofun⟩ hs.watch)⟩
    exact fun _ => ⟨by rw [he]; nofun, rfl⟩
  | @kill q hk =>
    refine h.steady ho hn hi (core_rel Steady.refl hk ?_)
    by_cases hs : (k.core q).state = .SLEEPING
    · rw [if_pos hs]
      exact .living rfl rfl rfl (by rw [hs]; rfl) rfl (awake nofun)
    · rw [if_neg hs]
      exact .same rfl rfl rfl (fun _ e => e) fun _ => ⟨rfl, rfl⟩
  | @reap p z x ch hr hpz hz hk =>
    have hs : Steady (k.core p) { k.core p with chan := ch } := .unchan hr
    have hzu : (k'.core z).state = .UNUSED := by rw [hk, update_self]
    refine ⟨h.pids.free hn (by rw [hz]; nofun) hzu (core_rel2 SamePid.refl hk hs.pid ?_),
      h.kin.same ho hi (core_rel2 SameKin.refl hk hs.kin ?_),
      h.watch.same (core_rel2 SameWatch.refl hk hs.watch ⟨nofun, nofun⟩)⟩
    · exact fun hu => absurd rfl hu
    · exact ⟨by rw [hz]; nofun, nofun, .inr ⟨hz, rfl, rfl⟩, fun _ e => e⟩

/-! ## what wait and waitx return -/

/-- the pid that a call of `wait` or `waitx` returns. -/
def Kernel.WaitResult.pid? : Except Stop Kernel.WaitResult → Option Int
  | .ok (.reaped pid _ _) => some pid
  | _ => none

/-- the kernel in which a turn of `wait` by `p` looks for a child. -/
def waitKernel (s : State n) (p : Slot) : Action n → Kernel
  | .cpu _ => s.ker.unchan p
  | _ => s.ker

/-- the process that returns from `wait` or `waitx` at the step, and the pid it gets. -/
def waitReturns (pol : Policy) (s : State n) (a : Action n) : Option (Slot × Int) :=
  match waits s a with
  | some (p, x) =>
    let k := waitKernel s p a
    (Kernel.WaitResult.pid? (if x then k.waitx p else k.wait pol p)).map (p, ·)
  | none => none

/-- all pids that `wait` and `waitx` have returned. -/
def returned (pol : Policy) (tr : Trace n) : List Int :=
  tr.filterMap fun e => (waitReturns pol e.1 e.2).map Prod.snd

lemma Waiting.kernel {c : Fin n} {x : Bool} (h : Waiting s a c p x k) : k = waitKernel s p a := by
  cases h <;> rfl

lemma event_of_not_waits (h : waits s a = none) : (event s a).returns s.ker = none := by
  have hf : ∀ p, (s.ker.forkEvent p).returns s.ker = none := by
    intro p
    unfold Kernel.forkEvent
    split
    · split <;> rfl
    all_goals rfl
  unfold event
  rw [h]
  dsimp only
  split
  · split <;> rfl
  · unfold chargeEvent
    split <;> rfl
  · unfold Kernel.killEvent
    split <;> rfl
  · split
    · exact hf _
    · rfl
  · rfl

/-- **the event of a step says what `wait` and `waitx` return.** -/
theorem waitReturns_eq (h : step pol s a = .ok s') : waitReturns pol s a = (event s a).returns s.ker := by
  unfold waitReturns
  cases hw : waits s a with
  | none => exact (event_of_not_waits hw).symm
  | some px =>
    obtain ⟨p, x⟩ := px
    obtain ⟨c, k, hk, ht⟩ := waits_waitTurn hw h
    rw [event_waits hk, Kernel.waitEvent]
    simp only [← hk.kernel]
    rw [wait_eq]
    unfold waitTurn at ht
    rw [wait_eq] at ht
    cases hz : k.zombieChild p with
    | none =>
      simp only [Event.returns]
      split <;> rfl
    | some z =>
      simp only [hz] at ht
      cases hr : k.reap pol x z with
      | error => rw [hr] at ht; cases ht
      | ok =>
        have e : (k.procs z).pid = (s.ker.procs z).pid := (hk.calm.procs z).pid
        simp only [Event.returns, Kernel.WaitResult.pid?, hr, e]
        rfl

/-! ## every run -/

lemma firstKernel_family (npages need : Nat) : Family (firstKernel npages need) [] := by
  have hinit : (firstKernel npages need).core 0 = { state := .RUNNABLE, pid := 1 } := by
    show ((firstKernel npages need).procs 0).core = _
    rw [firstKernel_init]
    rfl
  have hother : ∀ q, q ≠ 0 → (firstKernel npages need).core q = {} := by
    intro q hq
    show ((firstKernel npages need).procs q).core = _
    rw [firstKernel_others _ _ hq]
    rfl
  have hused : ∀ q, ((firstKernel npages need).core q).state ≠ .UNUSED → q = 0 := by
    intro q hu
    by_contra hq
    rw [hother q hq] at hu
    exact hu rfl
  have hpar : ∀ q, ((firstKernel npages need).core q).parent = none ∧
      ((firstKernel npages need).core q).fork = .none ∧ ¬ ((firstKernel npages need).core q).Waits := by
    intro q
    by_cases hq : q = 0
    · rw [hq, hinit]; exact ⟨rfl, rfl, fun hw => by cases hw.1⟩
    · rw [hother q hq]; exact ⟨rfl, rfl, fun hw => by cases hw.1⟩
  refine ⟨⟨(by decide : (0 : Int) < 2), fun p hp => ?_, fun p q hp hq _ => ?_, nofun, .nil⟩,
    ⟨?_, fun p => ?_, fun p hp hm => ?_, fun p np hf => ?_⟩, ⟨fun p hw => absurd hw (hpar p).2.2⟩⟩
  · show ((firstKernel npages need).core p).pid < 2
    rw [hused p hp, hinit]
    decide
  · rw [hused p hp, hused q hq]
  · show ((firstKernel npages need).core 0).state.alive = true ∧ _
    rw [hinit]
    exact ⟨rfl, (hpar 0).1⟩
  · rw [(hpar p).1]
    nofun
  · refine absurd (hused p fun e => ?_) hp
    rw [e] at hm
    cases hm
  · rw [(hpar p).2.1] at hf
    cases hf

lemma Boot.family (hb : Boot npages need s) : Family s.ker [] := by
  obtain ⟨-, rfl⟩ := hb.eq
  exact firstKernel_family npages need

lemma returned_concat (pol : Policy) (tr : Trace n) (e : State n × Action n) :
    returned pol (tr ++ [e]) = returned pol tr ++ ((waitReturns pol e.1 e.2).map Prod.snd).toList := by
  unfold returned
  rw [filterMap_append]
  congr 1

lemma Run.family {tr : Trace n} (hb : Boot npages need s) (h : Run pol s tr s')
    (hp : ∀ e ∈ tr, PidLeft e.1.ker (event e.1 e.2)) : Family s'.ker (returned pol tr) := by
  revert hp
  refine h.history (fun tr t => (∀ e ∈ tr, PidLeft e.1.ker (event e.1 e.2)) →
    Family t.ker (returned pol tr)) (fun _ => hb.family) ?_
  intro tr u a u' hr ih hst hp
  have hu := Run.sound hb hr
  have hf := ih fun e he => hp e (mem_append_left _ he)
  have hl := hp (u, a) (mem_append_right _ (mem_singleton_self _))
  rw [returned_concat, waitReturns_eq hst]
  exact hf.keep hu.fork (step_turn hu hst) hl

lemma Turn.returns {pid : Int} (h : Turn k k' ev) (hr : ev.returns k = some (p, pid)) :
    ∃ z, (k.procs z).pid = pid ∧ (k.procs z).parent = some p ∧ (k.procs z).state = .ZOMBIE := by
  cases ev with
  | reap p' z =>
    cases hr
    cases h.fate with
    | reap hrun hp hz => exact ⟨z, rfl, hp, hz⟩
  | _ => cases hr

/-- **Parents, children and pids.** In every state that a run reaches before `nextpid` wraps, with
any number of CPUs and in every build: slots in use have different pids; every process but init
that has left `fork` has a parent that is neither free nor a ZOMBIE; no pid has been returned twice
by `wait` or `waitx`, and each was returned to the parent of that child; nobody sleeps in `wait` or
`waitx` on its own channel while a child is a ZOMBIE. Runs end at `Stop.index`. -/
theorem parents_wait_for_children {npages need : Nat} {tr : Trace n}
    (hb : Boot npages need s) (h : Run pol s tr s')
    (hp : ∀ e ∈ tr, PidLeft e.1.ker (event e.1 e.2)) :
    (∀ p q, (s'.ker.procs p).state ≠ .UNUSED → (s'.ker.procs q).state ≠ .UNUSED →
      (s'.ker.procs p).pid = (s'.ker.procs q).pid → p = q) ∧
    (∀ p, p ≠ s'.ker.initproc → (s'.ker.procs p).state.made = true →
      ∃ q, (s'.ker.procs p).parent = some q ∧ (s'.ker.procs q).state ≠ .UNUSED ∧ (s'.ker.procs q).state ≠ .ZOMBIE) ∧
    (returned pol tr).Nodup ∧
    (∀ e ∈ tr, ∀ p pid, waitReturns pol e.1 e.2 = some (p, pid) →
      ∃ z, (e.1.ker.procs z).pid = pid ∧ (e.1.ker.procs z).parent = some p ∧ (e.1.ker.procs z).state = .ZOMBIE) ∧
    (∀ p, (s'.ker.procs p).Waits → (s'.ker.procs p).chan = some (.proc p) ∧
      ∀ z, (s'.ker.procs z).parent = some p → (s'.ker.procs z).state ≠ .ZOMBIE) := by
  have hf := Run.family hb h hp
  refine ⟨hf.pids.inj, fun p hpi hm => ?_, hf.pids.nodup, fun e he p pid hr => ?_, hf.watch.waits⟩
  · obtain ⟨q, e, ha⟩ := hf.kin.parent p hpi hm
    refine ⟨q, e, fun e' => ?_, fun e' => ?_⟩
    · rw [show (s'.ker.core q).state = .UNUSED from e'] at ha
      cases ha
    · rw [show (s'.ker.core q).state = .ZOMBIE from e'] at ha
      cases ha
  · obtain ⟨l, r, rfl⟩ := append_of_mem he
    obtain ⟨u, hu, h2⟩ := h.split
    obtain ⟨rfl, v, hst, -⟩ := h2.head
    rw [waitReturns_eq hst] at hr
    exact (step_turn (Run.sound hb hu) hst).returns hr

/-- in the DEFAULT build: init forks pid 2, which exits while init sleeps in `wait`; `wait` returns
2, and init forks pid 3. -/
theorem parents_wait_for_children_two : ∃ (s s' : State 1) (tr : Trace 1),
    Boot 100 0 s ∧ Run .DEFAULT s tr s' ∧ (∀ e ∈ tr, PidLeft e.1.ker (event e.1 e.2)) ∧
      returned .DEFAULT tr = [2] ∧ (s'.ker.procs 1).pid = 3 ∧
      ∃ q, (s'.ker.procs 1).parent = some q ∧ (s'.ker.procs q).state ≠ .UNUSED ∧
        (s'.ker.procs q).state ≠ .ZOMBIE := by
  obtain ⟨s, t, tr, hb, h, hp, hret, hpid, hm, hi⟩ : ∃ (s t : State 1) (tr : _), Boot 100 0 s ∧
      Run .DEFAULT s tr t ∧ (∀ e ∈ tr, PidLeft e.1.ker (event e.1 e.2)) ∧ returned .DEFAULT tr = [2] ∧
      (t.ker.procs 1).pid = 3 ∧ (t.ker.procs 1).state.made = true ∧ t.ker.initproc = 0 :=
    Boot.exists_run (by decide) (turns 3 ++ forkAll ++ [.sys 0 .wait] ++ turns 3 ++ [.sys 0 .exit] ++
      turns 67 ++ forkAll) (by decide +kernel)
  have hpar := (parents_wait_for_children hb h hp).2.1 1 (by rw [hi]; decide) hm
  exact ⟨s, t, tr, hb, h, hp, hret, hpid, hpar⟩

end Xv6
