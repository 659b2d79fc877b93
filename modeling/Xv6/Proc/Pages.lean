import Xv6.Proc.Running
import Xv6.Lib.Owned

/-!
# Kernel stacks and page directories

`pages k p` are the pages that belong to the process `p`: its kernel stack, and the pages of its
page directory once it has one (`HasDir`; the field of a reaped process still holds the old
pointer). `Pages k` says that no page belongs to two processes or to a process and the free list,
and that every process that can run has both.
-/

namespace Xv6
open Lib List Kernel Option

variable {n : Nat} {pol : Policy} {s s' : State n} {k k' : Kernel} {p : Slot} {pc : ForkPc} {f : Proc → Proc}
  {g : ForkPc → Option Slot} {npages need : Nat} {p np : Slot}

/-- a slot that is in use and complete. -/
def ProcState.complete : ProcState → Bool
  | .UNUSED => false
  | .EMBRYO => false
  | _ => true

/-- the child that already has its kernel stack. -/
def ForkPc.stack : ForkPc → Option Slot
  | .ctime np => some np
  | .copyuvm np => some np
  | .ready np => some np
  | _ => Option.none

/-- the child that already has its page directory. -/
def ForkPc.dir : ForkPc → Option Slot
  | .ready np => some np
  | _ => Option.none

/-- somebody is forking `x` and has come as far as `g` says. -/
def Forked (g : ForkPc → Option Slot) (k : Kernel) (x : Slot) : Prop :=
  ∃ q, g (k.procs q).fork = some x

def HasStack (k : Kernel) (p : Slot) : Prop :=
  (k.procs p).state.complete = true ∨ Forked ForkPc.stack k p

def HasDir (k : Kernel) (p : Slot) : Prop :=
  (k.procs p).state.complete = true ∨ Forked ForkPc.dir k p

open Classical in
/-- the pages of the process `p`. -/
noncomputable def pages (k : Kernel) (p : Slot) : List Page :=
  (k.procs p).kstack.toList ++ if HasDir k p then (k.procs p).pgdir.getD [] else []

structure Pages (k : Kernel) : Prop where
  owned : Owned (pages k) k.freelist
  stack : ∀ p, HasStack k p → (k.procs p).kstack.isSome
  dir : ∀ p, HasDir k p → (k.procs p).pgdir.isSome

lemma ForkPc.child_of_stack {np : Slot} (h : pc.stack = some np) : pc.child = some np := by
  cases pc <;> first | exact h | cases h

lemma ForkPc.child_of_dir {np : Slot} (h : pc.dir = some np) : pc.child = some np := by
  cases pc <;> first | exact h | cases h

lemma pages_of_dir (h : HasDir k p) : pages k p = (k.procs p).kstack.toList ++ (k.procs p).pgdir.getD [] := by
  unfold pages; rw [if_pos h]

lemma pages_of_no_dir (h : ¬ HasDir k p) : pages k p = (k.procs p).kstack.toList := by
  unfold pages; rw [if_neg h, append_nil]

lemma pages_congr (hs : (k'.procs p).kstack = (k.procs p).kstack)
    (hd : (k'.procs p).pgdir = (k.procs p).pgdir) (h : HasDir k' p ↔ HasDir k p) :
    pages k' p = pages k p := by
  unfold pages
  rw [hs, hd]
  by_cases e : HasDir k p
  · rw [if_pos e, if_pos (h.mpr e)]
  · rw [if_neg e, if_neg (mt h.mp e)]

/-! ## steps that move no page -/

lemma Pages.congr (h : Pages k) (hfl : k'.freelist = k.freelist)
    (hf : ∀ p, Frame (k.procs p) (k'.procs p))
    (hc : ∀ p, (k'.procs p).state.complete = (k.procs p).state.complete) : Pages k' := by
  have forked : ∀ g p, Forked g k' p ↔ Forked g k p := by
    intro g p
    unfold Forked
    simp only [(hf _).fork]
  have hstack : ∀ p, HasStack k' p ↔ HasStack k p := by
    intro p; unfold HasStack; rw [hc, forked]
  have hdir : ∀ p, HasDir k' p ↔ HasDir k p := by
    intro p; unfold HasDir; rw [hc, forked]
  have hp : pages k' = pages k :=
    funext fun p => pages_congr (hf p).kstack (hf p).pgdir (hdir p)
  refine ⟨by rw [hp, hfl]; exact h.owned, fun p e => ?_, fun p e => ?_⟩
  · rw [(hf p).kstack]; exact h.stack p ((hstack p).mp e)
  · rw [(hf p).pgdir]; exact h.dir p ((hdir p).mp e)

lemma Calm.complete {r r' : Proc} (h : Calm r r') : r'.state.complete = r.state.complete := by
  rcases h.state with e | ⟨e, e'⟩
  · rw [e]
  · rw [e, e']; rfl

lemma Pages.calm (h : Pages k) (hk : k.CalmTo k') : Pages k' :=
  h.congr hk.freelist (fun p => (hk.procs p).toFrame) (fun p => (hk.procs p).complete)

lemma Pages.upd (h : Pages k)
    (hf : Frame (k.procs p) (f (k.procs p)))
    (hc : (f (k.procs p)).state.complete = (k.procs p).state.complete) : Pages (k.upd p f) := by
  refine h.congr rfl (fun q => ?_) (fun q => ?_) <;> rw [upd_procs] <;> split
  · next e => rw [e]; exact hf
  · exact Frame.refl _
  · next e => rw [e]; exact hc
  · rfl

/-! ## fork -/

lemma ForkEdge.forked (hg : ∀ pc np, g pc = some np → pc.child = some np)
    (he : ForkEdge k p np f pc) (h : ForkOk k) (hne : np ≠ p)
    (hk : k'.procs = ((k.upd np f).upd p fun r => { r with fork := pc }).procs) :
    (∀ x, x ≠ np → (Forked g k' x ↔ Forked g k x)) ∧ (Forked g k' np ↔ g pc = some np) := by
  have eqp : (k'.procs p).fork = pc := by rw [hk, upd_same]
  have eqn : k'.procs np = f (k.procs np) := by
    rw [hk, upd_of_ne _ _ hne, upd_same]
  have eqo : ∀ q, q ≠ p → q ≠ np → k'.procs q = k.procs q := by
    intro q h1 h2
    rw [hk, upd_of_ne _ _ h1, upd_of_ne _ _ h2]
  have free : (k.procs np).fork.child = none := by
    rcases he.before with ⟨e, -⟩ | ⟨e, -⟩
    · exact h.none_of (.inl e)
    · exact h.none_of (.inr (.inl e))
  -- before and after, `np` forks nobody and `p` forks at most `np`
  have none' : ∀ x, g (k'.procs np).fork ≠ some x := by
    intro x hx
    have := hg _ _ hx
    rw [eqn, he.child] at this
    cases this
  have none : ∀ x, g (k.procs np).fork ≠ some x := by
    intro x hx
    have := hg _ _ hx
    rw [free] at this
    cases this
  have only' : ∀ x, g pc = some x → x = np := by
    intro x hx
    have := hg _ _ hx
    rcases he.after with ⟨e, -⟩ | ⟨e, -⟩ <;> rw [e] at this
    · cases this
    · exact (some.inj this).symm
  have only : ∀ x, g (k.procs p).fork = some x → x = np := by
    intro x hx
    have := hg _ _ hx
    rcases he.before with ⟨-, e⟩ | ⟨-, e⟩ <;> rw [e] at this
    · cases this
    · exact (some.inj this).symm
  refine ⟨fun x hx => ⟨?_, ?_⟩, ?_, fun e => ⟨p, by rw [eqp, e]⟩⟩
  · rintro ⟨q, hq⟩
    have h1 : q ≠ p := by
      rintro rfl
      rw [eqp] at hq
      exact hx (only' x hq)
    have h2 : q ≠ np := fun e => none' x (e ▸ hq)
    exact ⟨q, by rw [← eqo q h1 h2]; exact hq⟩
  · rintro ⟨q, hq⟩
    have h1 : q ≠ p := by
      rintro rfl
      exact hx (only x hq)
    have h2 : q ≠ np := fun e => none x (e ▸ hq)
    exact ⟨q, by rw [eqo q h1 h2]; exact hq⟩
  · rintro ⟨q, hq⟩
    by_cases e : q = p
    · rw [← eqp, ← e]; exact hq
    · exfalso
      have h2 : q ≠ np := fun e' => none' np (e' ▸ hq)
      rw [eqo q e h2] at hq
      have hc := hg _ _ hq
      rcases he.before with ⟨e1, -⟩ | ⟨-, e1⟩
      · rw [h.embryo q np hc] at e1; cases e1
      · exact e (h.inj q p np hc e1)

lemma ForkEdge.pages
    (he : ForkEdge k p np f pc) (h : Pages k) (ho : ForkOk k) (hne : np ≠ p)
    (hk : k'.procs = ((k.upd np f).upd p fun r => { r with fork := pc }).procs)
    (hstack : (f (k.procs np)).state.complete = true ∨ pc.stack = some np → (f (k.procs np)).kstack.isSome)
    (hdir : (f (k.procs np)).state.complete = true ∨ pc.dir = some np → (f (k.procs np)).pgdir.isSome)
    (hown : ((f (k.procs np)).kstack.toList ++ (if (f (k.procs np)).state.complete = true ∨
        pc.dir = some np then (f (k.procs np)).pgdir.getD [] else []) ++ k'.freelist).Subperm
      (pages k np ++ k.freelist)) : Pages k' := by
  have eqn : k'.procs np = f (k.procs np) := by
    rw [hk, upd_of_ne _ _ hne, upd_same]
  have eqo : ∀ q, q ≠ np → (k'.procs q).state = (k.procs q).state ∧
      (k'.procs q).kstack = (k.procs q).kstack ∧ (k'.procs q).pgdir = (k.procs q).pgdir := by
    intro q hq
    by_cases e : q = p
    · subst e
      rw [hk, upd_same, upd_of_ne _ _ hq]
      exact ⟨rfl, rfl, rfl⟩
    · rw [hk, upd_of_ne _ _ e, upd_of_ne _ _ hq]
      exact ⟨rfl, rfl, rfl⟩
  obtain ⟨hs, hsn⟩ := he.forked (fun _ _ => ForkPc.child_of_stack) ho hne hk
  obtain ⟨hd, hdn⟩ := he.forked (fun _ _ => ForkPc.child_of_dir) ho hne hk
  have hdq : ∀ q, q ≠ np → (HasDir k' q ↔ HasDir k q) := by
    intro q hq; unfold HasDir; rw [(eqo q hq).1, hd q hq]
  have hdnp : HasDir k' np ↔ (f (k.procs np)).state.complete = true ∨ pc.dir = some np := by
    unfold HasDir; rw [eqn, hdn]
  have hpn : Xv6.pages k' np = (f (k.procs np)).kstack.toList ++ (if
      (f (k.procs np)).state.complete = true ∨ pc.dir = some np then
        (f (k.procs np)).pgdir.getD [] else []) := by
    unfold Xv6.pages
    simp only [eqn, hdnp]
  refine ⟨h.owned.move np (fun q hq => ?_) (by rw [hpn]; exact hown), fun q hq => ?_, fun q hq => ?_⟩
  · exact pages_congr (eqo q hq).2.1 (eqo q hq).2.2 (hdq q hq)
  · by_cases e : q = np
    · subst e
      unfold HasStack at hq
      rw [eqn, hsn] at hq
      rw [eqn]
      exact hstack hq
    · rw [(eqo q e).2.1]
      apply h.stack q
      unfold HasStack at hq ⊢
      rwa [(eqo q e).1, hs q e] at hq
  · by_cases e : q = np
    · subst e; rw [eqn]; exact hdir (hdnp.mp hq)
    · rw [(eqo q e).2.2]
      exact h.dir q ((hdq q e).mp hq)

lemma ForkOk.forked_iff (h : ForkOk k)
    (hg : ∀ pc np, g pc = some np → pc.child = some np)
    (hc : (k.procs p).fork.child = some np) : Forked g k np ↔ g (k.procs p).fork = some np := by
  refine ⟨?_, fun e => ⟨p, e⟩⟩
  rintro ⟨q, hq⟩
  rw [← h.inj q p np (hg _ _ hq) hc]
  exact hq

lemma ForkOk.no_dir (h : ForkOk k) (hc : (k.procs p).fork.child = some np)
    (hd : (k.procs p).fork.dir = none) : ¬ HasDir k np := by
  rintro (e | e)
  · rw [h.embryo p np hc] at e; cases e
  · rw [h.forked_iff (fun _ _ => ForkPc.child_of_dir) hc, hd] at e; cases e

lemma forkStep_pages {need : Nat} (hk : k.ForkCase p need k') (h : Pages k) (ho : ForkOk k)
    (hp : (k.procs p).state = .RUNNING) : Pages k' := by
  have hne : ∀ np, (k.procs p).fork.child = some np → np ≠ p := by
    rintro np e rfl
    have := ho.embryo np np e
    rw [hp] at this
    cases this
  have stack : ∀ np, (k.procs p).fork.stack = some np → (k.procs np).kstack.isSome :=
    fun np e => h.stack np (.inr ⟨p, e⟩)
  cases hk with
  | full => exact h
  | @alloc np q hf hn hu =>
    have hd : ¬ HasDir k np := by
      rintro (e | ⟨q, e⟩)
      · rw [hu] at e; cases e
      · have := ho.embryo q np (ForkPc.child_of_dir e)
        rw [hu] at this
        cases this
    refine (ho.edge_alloc hf hu).pages h ho (by rintro rfl; rw [hp] at hu; cases hu) rfl
      (by rintro (e | e) <;> cases e) (by rintro (e | e) <;> cases e) ?_
    rw [pages_of_no_dir hd]
    simpa [ProcState.complete, ForkPc.dir] using List.Subperm.refl (_ : List Page)
  | @noStack np hf =>
    have hc : _ = some np := congrArg ForkPc.child hf
    refine (ho.edge hc (.inl rfl) (.inl ⟨rfl, .inl rfl⟩)).pages h ho (hne np hc) rfl
      (by rintro (e | e) <;> cases e) (by rintro (e | e) <;> cases e) ?_
    exact (sublist_append_right ..).subperm
  | @stack np pg rest hf hl =>
    have hc : _ = some np := congrArg ForkPc.child hf
    refine (ho.edge hc (.inr rfl) (.inr ⟨rfl, rfl⟩)).pages h ho (hne np hc) rfl (fun _ => rfl) (fun e => ?_) ?_
    · rw [ho.embryo p np hc] at e
      rcases e with e | e <;> cases e
    · rw [hl]
      simpa [ho.embryo p np hc, ProcState.complete, ForkPc.dir] using
        (sublist_append_right (pages k np) (pg :: rest)).subperm
  | @times np hf =>
    have hc : _ = some np := congrArg ForkPc.child hf
    refine (ho.edge hc (.inl rfl) (.inr ⟨rfl, rfl⟩)).pages h ho (hne np hc) rfl
      (fun _ => stack np (by rw [hf]; rfl)) (fun e => ?_) ?_
    · rw [ho.embryo p np hc] at e
      rcases e with e | e <;> cases e
    · rw [pages_of_no_dir (ho.no_dir hc (by rw [hf]; rfl))]
      simpa [ho.embryo p np hc, ProcState.complete, ForkPc.dir] using List.Subperm.refl (_ : List Page)
  | @copy np hf =>
    have hc : _ = some np := congrArg ForkPc.child hf
    refine (ho.edge hc (.inl rfl) (.inr ⟨rfl, rfl⟩)).pages h ho (hne np hc) rfl
      (fun _ => stack np (by rw [hf]; rfl)) (fun _ => rfl) ?_
    rw [pages_of_no_dir (ho.no_dir hc (by rw [hf]; rfl))]
    simpa [ForkPc.dir] using List.Subperm.refl (_ : List Page)
  | @noCopy np hf =>
    have hc : _ = some np := congrArg ForkPc.child hf
    refine (ho.edge hc (.inl rfl) (.inl ⟨rfl, .inl rfl⟩)).pages h ho (hne np hc) rfl
      (by rintro (e | e) <;> cases e) (by rintro (e | e) <;> cases e) ?_
    rw [pages_of_no_dir (ho.no_dir hc (by rw [hf]; rfl))]
    exact List.Subperm.refl _
  | @ready np hf =>
    have hc : _ = some np := congrArg ForkPc.child hf
    have hd : HasDir k np := .inr ⟨p, by rw [hf]; rfl⟩
    refine (ho.edge hc (.inl rfl) (.inl ⟨rfl, .inr rfl⟩)).pages h ho (hne np hc) rfl
      (fun _ => stack np (by rw [hf]; rfl)) (fun _ => h.dir np hd) ?_
    rw [pages_of_dir hd]
    simpa [ProcState.complete] using List.Subperm.refl (_ : List Page)

/-! ## wait and waitx -/

lemma reap_pages {x : Bool} {z : Slot} (hk : k.reap pol x z = .ok k') (h : Pages k)
    (ho : ForkOk k) (hz : (k.procs z).state = .ZOMBIE) : Pages k' := by
  obtain ⟨st, pd, hst, hpd, hq, he, -, -, -, -, hfl⟩ := reap_ok hk
  have hfork : ∀ q, (k'.procs q).fork = (k.procs q).fork := by
    intro q
    by_cases e : q = z
    · rw [e, he]
    · rw [hq q e]
  have forked : ∀ g q, Forked g k' q ↔ Forked g k q := by
    intro g q; unfold Forked; simp only [hfork]
  have hd' : ¬ HasDir k' z := by
    rintro (e | e)
    · rw [he] at e; cases e
    · rw [forked] at e
      obtain ⟨q, e⟩ := e
      have := ho.embryo q z (ForkPc.child_of_dir e)
      rw [hz] at this
      cases this
  have hs' : ¬ HasStack k' z := by
    rintro (e | e)
    · rw [he] at e; cases e
    · rw [forked] at e
      obtain ⟨q, e⟩ := e
      have := ho.embryo q z (ForkPc.child_of_stack e)
      rw [hz] at this
      cases this
  have hdq : ∀ q, q ≠ z → (HasDir k' q ↔ HasDir k q) := by
    intro q e; unfold HasDir; rw [hq q e, forked]
  have hpz : pages k' z = [] := by rw [pages_of_no_dir hd', he]; rfl
  have hpz0 : pages k z = st :: pd := by
    rw [pages_of_dir (.inl (by rw [hz]; rfl)), hst, hpd]; rfl
  refine ⟨h.owned.move z (fun q e => ?_) ?_, fun q e => ?_, fun q e => ?_⟩
  · exact pages_congr (by rw [hq q e]) (by rw [hq q e]) (hdq q e)
  · rw [hpz, hpz0, hfl]
    exact perm_middle.subperm
  · have hqz : q ≠ z := fun e' => hs' (e' ▸ e)
    rw [hq q hqz]
    apply h.stack q
    unfold HasStack at e ⊢
    rwa [hq q hqz, forked] at e
  · have hqz : q ≠ z := fun e' => hd' (e' ▸ e)
    rw [hq q hqz]
    exact h.dir q ((hdq q hqz).mp e)

/-! ## every step -/

lemma View.keeps_pages {c : Fin n} {kd : Kind} (v : View c kd s s') (hs : Sound s)
    (h : Pages s.ker) : Pages s'.ker := by
  cases v.life with
  | calm hk => exact h.calm hk
  | @dispatch _ _ p f hr hf hs hk =>
    rw [hk]
    exact h.upd hf (by rw [hr, hs]; rfl)
  | @leave _ k1 _ p f h1 hf hst hk =>
    rw [hk]
    apply (h.calm h1).upd hf
    have hcp : (s.cpus c).proc = some p := by
      cases v.cpu with
      | stay h1 h2 => exact absurd rfl (h2 p)
      | leave hm hp => exact hp
    have hc : (s.ker.procs p).state.complete = true := by
      obtain ⟨h1, h2⟩ := hs.proc_state hcp
      cases e : (s.ker.procs p).state <;> first | rfl | exact absurd e h1 | exact absurd e h2
    rw [(h1.procs p).complete, hc]
    rcases hst with e | e | ⟨e, -⟩ <;> rw [e] <;> rfl
  | @fork _ _ p need hk =>
    apply forkStep_pages (forkStep_case hk) h hs.fork
    cases v.cpu with
    | stay h1 h2 hf => exact (hs.place c).proc_running (hf p rfl).1 (.inl (hf p rfl).2)
  | @reap pol x _ k1 _ p z h1 hz hk =>
    apply reap_pages hk (h.calm h1) (hs.fork.calm h1)
    have := find_some hz
    simp only [Bool.and_eq_true, decide_eq_true_eq] at this
    exact this.2

lemma Boot.pages (h : Boot npages need s) : Pages s.ker := by
  obtain ⟨hn, rfl⟩ := h.eq
  show Pages (firstKernel npages need)
  set k := firstKernel npages need
  have hfork : ∀ g : ForkPc → Option Slot, g .none = none → ∀ p, ¬ Forked g k p := by
    rintro g hg p ⟨q, e⟩
    have : (k.procs q).fork = .none := by
      by_cases e : q = 0
      · rw [e, firstKernel_init]
      · rw [firstKernel_others _ _ e]
    rw [this, hg] at e
    cases e
  have hc : ∀ p, (k.procs p).state.complete = true → p = 0 := by
    intro p hp
    by_contra e
    rw [firstKernel_others _ _ e] at hp
    cases hp
  have hs : ∀ p, HasStack k p → p = 0 := fun p hp => hp.elim (hc p) fun e => (hfork _ rfl p e).elim
  have hd : ∀ p, HasDir k p → p = 0 := fun p hp => hp.elim (hc p) fun e => (hfork _ rfl p e).elim
  have h0 : pages k 0 ++ k.freelist = range npages := by
    rw [pages_of_dir (.inl (by rw [firstKernel_init]; rfl)), firstKernel_init]
    show 0 :: (((range npages).drop 1).take (need + 1)) ++ ((range npages).drop 1).drop (need + 1) = range npages
    obtain ⟨m, rfl⟩ : ∃ m, npages = m + 1 := ⟨npages - 1, by omega⟩
    rw [cons_append, take_append_drop, range_succ_eq_map]
    rfl
  have hp : ∀ p, p ≠ 0 → pages k p = [] := by
    intro p e
    rw [pages_of_no_dir (fun hp => e (hd p hp)), firstKernel_others _ _ e]
    rfl
  have hnd : (pages k 0 ++ k.freelist).Nodup := by rw [h0]; exact nodup_range
  refine ⟨⟨fun p => ?_, fun p q hpq => ?_⟩, fun p e => ?_, fun p e => ?_⟩
  · by_cases e : p = 0
    · rw [e]; exact hnd
    · rw [hp p e]; exact (nodup_append.mp hnd).2.1
  · by_cases e : p = 0
    · rw [hp q fun e' => hpq (e.trans e'.symm)]; exact disjoint_nil_right _
    · rw [hp p e]; exact disjoint_nil_left _
  · rw [hs p e, firstKernel_init]; rfl
  · rw [hd p e, firstKernel_init]; rfl

/-- **The pages of a reachable kernel have one owner each.** -/
theorem Run.pages {tr : Trace n} (hb : Boot npages need s)
    (h : Run pol s tr s') : Pages s'.ker := by
  have keep : ∀ (s : State n) a s', Sound s ∧ Pages s.ker → True → step pol s a = .ok s' →
      Sound s' ∧ Pages s'.ker := by
    intro s a s' hi _ hs
    obtain ⟨c, kd, v⟩ := (step_trans hs).view
    exact ⟨v.keeps_sound hi.1, v.keeps_pages hi.1 hi.2⟩
  exact (h.invariant (fun s => Sound s ∧ Pages s.ker) (fun _ _ => True) keep (fun _ _ => trivial)
    ⟨hb.sound, hb.pages⟩).2

/-! ## a process runs on at most one CPU -/

/-- the kernel stack and the page directory a process points to. -/
def Kernel.stackAndDir (k : Kernel) (p : Slot) : List Page :=
  (k.procs p).kstack.toList ++ (k.procs p).pgdir.getD []

/-- RUNNABLE, RUNNING or SLEEPING. -/
def ProcState.canRun : ProcState → Bool
  | .RUNNABLE => true
  | .RUNNING => true
  | .SLEEPING => true
  | _ => false

lemma ProcState.complete_of_canRun {st : ProcState} (h : st.canRun = true) : st.complete = true := by
  cases st <;> first | rfl | cases h

lemma Pages.stackAndDir (h : Pages k) (hp : (k.procs p).state.canRun = true) :
    (k.procs p).kstack.isSome ∧ (k.procs p).pgdir.isSome ∧ k.stackAndDir p = Xv6.pages k p := by
  have hc := ProcState.complete_of_canRun hp
  exact ⟨h.stack p (.inl hc), h.dir p (.inl hc), (pages_of_dir (.inl hc)).symm⟩

lemma Sound.running_iff (h : Sound s) (hl : s.lock = none) (p : Slot) :
    (s.ker.procs p).state = .RUNNING ↔ ∃! c, (s.cpus c).proc = some p := by
  constructor
  · intro hr
    obtain ⟨c, hc⟩ := h.running p hr
    exact ⟨c, hc, fun c' hc' => h.inj c' c p hc' hc⟩
  · rintro ⟨c, hc, -⟩
    by_contra hr
    have hb := place_back (h.place_of_not_running hc hr)
    rw [h.lock c, hl] at hb
    cases hb

lemma Sound.reaps_off {a : Action n} {z : Slot} {x : Bool} (h : Sound s)
    (hz : reaps s a = some (z, x)) (hs : step pol s a = .ok s') (c : Fin n) :
    (s.cpus c).proc ≠ some z := by
  obtain ⟨c, p, k, k', hw, hzk, hk, -⟩ := reaps_reap hz hs
  exact hw.zombie_off h (Life.reap hw.calm hzk hk).reap_zombie.1 _

/-- **A process runs on at most one CPU.** In every build, for any number of CPUs and any run from
boot: with the lock free the RUNNING processes are those that are `c->proc` of exactly one CPU;
a process that can run has a kernel stack and a page directory, no page of which is free or belongs
to another process; and a ZOMBIE is on no CPU when its stack is freed. Runs end at `Stop.index`. -/
theorem runs_on_one_cpu {npages need : Nat} {tr : Trace n}
    (hb : Boot npages need s) (h : Run pol s tr s') :
    (s'.lock = none → ∀ p, (s'.ker.procs p).state = .RUNNING ↔ ∃! c, (s'.cpus c).proc = some p) ∧
    (∀ p, (s'.ker.procs p).state.canRun = true →
      (s'.ker.procs p).kstack.isSome ∧ (s'.ker.procs p).pgdir.isSome ∧
      ∀ pg ∈ s'.ker.stackAndDir p, pg ∉ s'.ker.freelist ∧
        ∀ q, q ≠ p → (s'.ker.procs q).state.canRun = true → pg ∉ s'.ker.stackAndDir q) ∧
    (∀ a s'' z x, step pol s' a = .ok s'' → reaps s' a = some (z, x) → ∀ c, (s'.cpus c).proc ≠ some z) := by
  have hs := Run.sound hb h
  have hp := Run.pages hb h
  refine ⟨hs.running_iff, fun p hcan => ?_, fun a s'' z x hst hz c => hs.reaps_off hz hst c⟩
  obtain ⟨h1, h2, e⟩ := hp.stackAndDir hcan
  refine ⟨h1, h2, fun pg hpg => ⟨?_, fun q hqp hq hpq => ?_⟩⟩
  · rw [e] at hpg
    exact hp.owned.not_free hpg
  · rw [e] at hpg
    rw [(hp.stackAndDir hq).2.2] at hpq
    exact hp.owned.apart q p hqp hpq hpg

/-- two CPUs: init runs on the first, the other is idle. -/
theorem runs_on_one_cpu_boot : ∃ (s : State 2) (tr : List (State 2 × Action 2)) (s' : State 2),
    Boot 10 1 s ∧ Run .DEFAULT s tr s' ∧ s'.lock = none ∧ (s'.ker.procs 0).state = .RUNNING ∧
      ∃! c, (s'.cpus c).proc = some 0 := by
  obtain ⟨s, t, tr, hb, h, hl, hr⟩ : ∃ (s t : State 2) (tr : _), Boot 10 1 s ∧ Run .DEFAULT s tr t ∧
      t.lock = none ∧ (t.ker.procs 0).state = .RUNNING :=
    Boot.exists_run (by decide) [.cpu 0, .cpu 0, .cpu 0, .timer 1 false] (by decide +kernel)
  exact ⟨s, tr, t, hb, h, hl, hr, ((runs_on_one_cpu hb h).1 hl 0).mp hr⟩

end Xv6
