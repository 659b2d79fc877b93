import Mathlib.Logic.Relation
import Xv6.Vm.Fork
import Xv6.Sys.Machine
import Xv6.Pipe.Machine

/-!
# What is modelled twice

`Kernel.forkStep` is one part of `fork`, between which other CPUs run; `Vm.fork` runs alone, over page tables; `Sys.fork`
copies the descriptors. A pipe is a `Pipe.State`, and for `Sys` a page with its two ends.

* `Vm.fork_leads`        `Vm.fork` does to the table and the queues what the parts do, one after the other;
* `Vm.forkRest_same`     and to descriptors, files and inodes what `Sys.fork` does;
* `Pipe.closes_holds`    along every run of a pipe, `Sys.pipeclose` keeps the ends of its page.
-/

namespace Xv6
open Lib List Function Relation

/-- without the pages, and without the place in `fork`. -/
def Proc.bare (r : Proc) : Proc := { r with kstack := none, pgdir := none, fork := .none }

namespace Kernel
variable {k k₁ v v' : Kernel} {cur np : Slot} {f g : Proc → Proc} {n : Nat} {o : Option Slot}

/-- what `Kernel.forkStep` and `Vm.fork` both keep. -/
def bare (k : Kernel) : Kernel := { k with procs := Proc.bare ∘ k.procs, freelist := [] }

lemma bare_upd (k : Kernel) (p : Slot) (f : Proc → Proc) :
    (k.upd p f).bare = k.bare.upd p fun _ => (f (k.procs p)).bare :=
  congrArg (fun t => { k with procs := t, freelist := [] }) (comp_update _ _ _ _)

lemma now_of_bare (h : k.bare = v.bare) : k.now = v.now := by
  have e := congrArg now h
  exact e

lemma bare_goes (k : Kernel) (pc : ForkPc) : (k.upd cur fun r => { r with fork := pc }).bare = k.bare := by
  rw [bare_upd]
  exact congrArg (fun t => { k.bare with procs := t }) (update_eq_self cur k.bare.procs)

lemma bare_embryo (k : Kernel) (p : Slot) : (k.embryo p).bare = (k.bare.embryo p).bare := by
  simp only [bare, embryo, upd, comp_update]
  rfl

/-- the same fields of the new process are assigned, and `fork` goes on. -/
theorem bare_assign (h : k.bare = v.bare) (pc : ForkPc) (hf : ∀ r, (f r).bare = (g r.bare).bare)
    (hg : ∀ r, (g r).bare = (g r.bare).bare) :
    ((k.upd np f).upd cur fun r => { r with fork := pc }).bare = (v.upd np g).bare := by
  have hp : (k.procs np).bare = (v.procs np).bare := congrArg (fun k => k.procs np) h
  rw [bare_goes, bare_upd, bare_upd, h, hf, hp, ← hg]

lemma bare_allocproc (h : k.bare = v.bare) (hv : v.allocproc = .ok (o, v')) :
    ∃ k', k.allocproc = .ok (o, k') ∧ k'.bare = v'.bare ∧ k'.freelist = k.freelist ∧ (o = none → k' = k) := by
  have hfind : k.find (fun r => r.state = .UNUSED) = v.find (fun r => r.state = .UNUSED) :=
    congrArg (fun k => k.find fun r => r.state = .UNUSED) h
  have hqueue : k.bare.queue = v.bare.queue := by rw [h]
  unfold allocproc at hv ⊢
  rw [hfind]
  cases hf : v.find (fun r => r.state = .UNUSED) with
  | none =>
    rw [hf] at hv
    cases hv
    exact ⟨k, rfl, h, rfl, fun _ => rfl⟩
  | some np =>
    rw [hf] at hv
    unfold push at hv ⊢
    simp only [show (k.embryo np).queue = v.queue from hqueue, show (v.embryo np).queue = v.queue from rfl] at hv ⊢
    cases hq : (v.queue 0).push NPROC np with
    | none =>
      rw [hq] at hv
      cases hv
    | some q =>
      rw [hq] at hv
      cases hv
      have he : (k.embryo np).bare = (v.embryo np).bare := by rw [bare_embryo, h, ← bare_embryo]
      exact ⟨_, rfl, congrArg (fun x : Kernel => x.setQueue 0 q) he, rfl, nofun⟩

/-- parts of `fork`, one after the other. -/
abbrev Parts (cur : Slot) : Kernel → Kernel → Prop := ReflTransGen fun k k' => ∃ need, k.forkStep cur need = .ok k'

/-- the parts of `fork` lead from `k` to `pc`, with the table `v` but for pages, and with `n` free pages. -/
def Leads (cur : Slot) (k v : Kernel) (pc : ForkPc) (n : Nat) : Prop :=
  ∃ k', Parts cur k k' ∧ k'.bare = v.bare ∧ (k'.procs cur).fork = pc ∧ k'.freelist.length = n ∧
    ∀ np, pc = .ctime np ∨ pc = .copyuvm np → (k'.procs np).kstack.isSome

namespace Leads

lemma take (h : Leads cur k v .none n) (hv : v.allocproc = .ok (o, v')) :
    Leads cur k v' (o.elim .none .kalloc) n := by
  obtain ⟨k₁, hk, hb, hpc, hn, -⟩ := h
  obtain ⟨k₂, hk₂, hb₂, hf, hsame⟩ := bare_allocproc hb hv
  cases o with
  | none =>
    refine ⟨k₂, hk.tail ⟨0, by unfold forkStep; rw [hpc, hk₂]⟩, hb₂, ?_, hf ▸ hn, nofun⟩
    rw [hsame rfl]
    exact hpc
  | some np =>
    refine ⟨k₂.upd cur fun r => { r with fork := .kalloc np }, hk.tail ⟨0, by unfold forkStep; rw [hpc, hk₂]⟩,
      (bare_goes _ _).trans hb₂, ?_, hf ▸ hn, nofun⟩
    rw [upd_same]
    rfl

lemma starve (h : Leads cur k v (.kalloc np) 0) :
    Leads cur k (v.upd np fun r => { r with kstack := none, state := .UNUSED }) .none 0 := by
  obtain ⟨k₁, hk, hb, hpc, hn, -⟩ := h
  refine ⟨k₁.allocStack cur np, hk.tail ⟨0, by unfold forkStep; rw [hpc]⟩, ?_⟩
  unfold allocStack
  rw [length_eq_zero_iff.mp hn]
  exact ⟨bare_assign hb _ (fun _ => rfl) fun _ => rfl, by rw [upd_same], hn, nofun⟩

lemma stack (h : Leads cur k v (.kalloc np) (n + 1)) (hne : np ≠ cur) (pg : Page) :
    Leads cur k (v.upd np fun r => { r with kstack := some pg, context := .forkret }) (.ctime np) n := by
  obtain ⟨k₁, hk, hb, hpc, hn, -⟩ := h
  obtain ⟨pg', l, hl⟩ := exists_cons_of_length_eq_add_one hn
  rw [hl] at hn
  refine ⟨k₁.allocStack cur np, hk.tail ⟨0, by unfold forkStep; rw [hpc]⟩, ?_⟩
  unfold allocStack
  rw [hl]
  dsimp only
  refine ⟨bare_assign hb _ (fun _ => rfl) fun _ => rfl, by rw [upd_same], Nat.succ.inj hn, ?_⟩
  rintro q (hq | hq) <;> cases hq
  rw [upd_of_ne _ _ hne, upd_same]
  rfl

lemma times (h : Leads cur k v (.ctime np) n) (hne : np ≠ cur) : Leads cur k (v.upd np fun r => { r with
      ctime := v.now, etime := 0, rtime := 0, iotime := 0, num_run := 0,
      priority := if r.pid = 1 ∨ r.pid = 2 then 1 else 60 }) (.copyuvm np) n := by
  obtain ⟨k₁, hk, hb, hpc, hn, hs⟩ := h
  refine ⟨k₁.allocTimes cur np, hk.tail ⟨0, by unfold forkStep; rw [hpc]⟩, ?_⟩
  unfold allocTimes
  rw [now_of_bare hb]
  refine ⟨bare_assign hb _ (fun _ => rfl) fun _ => rfl, by rw [upd_same], hn, ?_⟩
  rintro q (hq | hq) <;> cases hq
  rw [upd_of_ne _ _ hne, upd_same]
  exact hs np (.inl rfl)

lemma fail (h : Leads cur k v (.copyuvm np) n) :
    Leads cur k (v.upd np fun r => { r with kstack := none, state := .UNUSED }) .none (n + 1) := by
  obtain ⟨k₁, hk, hb, hpc, rfl, hs⟩ := h
  obtain ⟨pg, hpg⟩ := Option.isSome_iff_exists.mp (hs np (.inr rfl))
  refine ⟨k₁.forkCopy cur np k₁.freelist.length, hk.tail ⟨_, by unfold forkStep; rw [hpc]⟩, ?_⟩
  unfold forkCopy
  rw [if_neg (Nat.lt_irrefl _), hpg]
  exact ⟨bare_assign hb _ (fun _ => rfl) fun _ => rfl, by rw [upd_same], rfl, nofun⟩

lemma copy {m : Nat} (h : Leads cur k v (.copyuvm np) n) (hm : m < n) :
    Leads cur k (v.upd np fun r => { r with parent := some cur, name := (v.procs cur).name }) (.ready np) m := by
  obtain ⟨k₁, hk, hb, hpc, hn, hs⟩ := h
  have hname : (k₁.procs cur).name = (v.procs cur).name := congrArg (fun k => (k.procs cur).name) hb
  refine ⟨k₁.forkCopy cur np (n - m - 1), hk.tail ⟨_, by unfold forkStep; rw [hpc]⟩, ?_⟩
  unfold forkCopy
  rw [if_pos (by omega), hname]
  refine ⟨bare_assign hb _ (fun _ => rfl) fun _ => rfl, by rw [upd_same], ?_, nofun⟩
  rw [length_drop]
  omega

lemma ready (h : Leads cur k v (.ready np) n) :
    Leads cur k (v.upd np fun r => { r with state := .RUNNABLE, start := v.now }) .none n := by
  obtain ⟨k₁, hk, hb, hpc, hn, hs⟩ := h
  refine ⟨k₁.forkReady cur np, hk.tail ⟨0, by unfold forkStep; rw [hpc]⟩, ?_⟩
  unfold forkReady
  rw [now_of_bare hb]
  exact ⟨bare_assign hb _ (fun _ => rfl) fun _ => rfl, by rw [upd_same], hn, nofun⟩

end Leads
end Kernel

namespace Vm
open Kernel (Leads)
variable {L : Link} {s : State} {k : Kernel} {f : Sys.State} {cur np : Slot} {ip : Fs.Ip} {D : Nat → Prop}
  {l : List Nat}

lemma allocproc_leads (hk : Leads cur k s.ker .none s.mem.freelist.length) (hl : (s.ker.procs cur).state ≠ .UNUSED) :
    wp (fun _ => True) allocproc
      (fun r s₁ => Leads cur k s₁.ker (r.elim .none .copyuvm) s₁.mem.freelist.length) s := by
  unfold allocproc
  apply wp_get_seq
  cases ha : s.ker.allocproc with
  | error => exact wp_throw trivial
  | ok x =>
    obtain ⟨o, v⟩ := x
    have h₁ := hk.take ha
    cases o with
    | none =>
      rw [(allocproc_none ha).1] at h₁
      exact wp_pure h₁
    | some np =>
      have hne : np ≠ cur := by
        rintro rfl
        exact hl (allocproc_some ha).1
      apply wp_seq (wp_set (Q := fun _ s₁ => s₁ = { s with ker := v }) rfl)
      rintro _ _ rfl
      cases hm : s.mem.freelist with
      | nil =>
        rw [hm] at h₁
        refine wp_seq (wp_onMem (Q := fun r m => r = none ∧ m = s.mem) (wp_of_ok (kalloc_nil hm) ⟨rfl, rfl⟩)) ?_
        rintro _ _ ⟨_, rfl, rfl, rfl⟩
        refine wp_modify_seq (wp_pure ?_)
        rw [hm]
        exact h₁.starve
      | cons pg l =>
        rw [hm] at h₁
        refine wp_seq (wp_onMem (Q := fun r m => r = some pg ∧ m = { s.mem with freelist := l })
          (wp_of_ok (kalloc_cons hm) ⟨rfl, rfl⟩)) ?_
        rintro _ _ ⟨_, rfl, rfl, rfl⟩
        exact wp_modify_seq (wp_modify_seq (wp_pure ((h₁.stack hne pg).times hne)))

lemma Pool.length_eq {l' : List Nat} (h : Pool L D l fun _ => none) (h' : Pool L D l' fun _ => none) :
    l.length = l'.length :=
  ((perm_ext_iff_of_nodup h.nodup h'.nodup).mpr fun p => (mem_of_pool h p).trans (mem_of_pool h' p).symm).length_eq

lemma Pool.length_lt {m : Mem} {d : Nat} (h : Pool L D l fun _ => none) (h' : Space L D m d) :
    m.freelist.length < l.length := by
  have hd : m.uses d .dir = some d := rfl
  have hn : (d :: m.freelist).Nodup := nodup_cons.mpr ⟨h'.not_free hd, h'.nodup⟩
  refine (hn.subperm fun p hp => (mem_of_pool h p).mpr ?_).length_le
  rcases mem_cons.mp hp with rfl | hp
  · exact h'.owns.data _ _ hd
  · exact h'.free p hp

/-- **`fork` as a whole does what its parts do when no other process runs between them.** -/
theorem fork_leads (h : Ready L s cur) (hk : Leads cur k s.ker .none s.mem.freelist.length) :
    wp (fun _ => True) (fork L cur) (fun _ s' => Leads cur k s'.ker .none s'.mem.freelist.length) s := by
  unfold fork
  refine wp_seq allocproc_spec.result fun r s₁ h1 => ?_
  obtain ⟨hrun, -, hsome⟩ := h1
  have h₁ := (allocproc_leads hk h.live).elim.1 _ _ hrun
  cases r with
  | none => exact wp_pure h₁
  | some np =>
    obtain ⟨pg, hst⟩ := hsome np rfl
    obtain ⟨hne, hdir, hsz⟩ := hst.parent h.live
    apply wp_get_seq
    rw [hdir, hsz]
    cases hpd : s.dir cur with
    | none => exact wp_throw trivial
    | some pd =>
      obtain ⟨hin, hpool, hcopy⟩ := fork_copyuvm h hst hpd
      apply wp_seq hcopy
      rintro d _ ⟨m, rfl, hno, hyes⟩
      apply wp_modify_seq
      cases d with
      | none =>
        refine wp_mono (forkFail_run hst.kstack (h.page pg hin)) ?_
        rintro _ _ ⟨-, rfl⟩
        rw [hpool.length_eq (hno rfl)] at h₁
        exact h₁.fail
      | some d =>
        refine wp_mono (forkRest_spec hne) ?_
        rintro _ s' ⟨hker, hmem, -⟩
        rw [hker, hmem]
        exact (h₁.copy (hpool.length_lt (hyes d rfl))).ready

/-- the descriptors, directories and reference counts are those of `f`. -/
structure Same (f : Sys.State) (s : State) : Prop where
  ofile : ∀ q fd, s.ofile q fd.val = (f.ofile (q, fd)).map Fin.val
  fileRef : ∀ x : Sys.Fp, s.fileRef x = (f.file x).ref
  cwd : ∀ q ip, f.cwd q = some ip → s.cwd q = ip.val
  inodeRef : ∀ ip : Fs.Ip, s.inodeRef ip = (f.fs.core.inode ip).ref

lemma Same.dup (h : Same f s) {x : Sys.Fp} (fd : Sys.Fd) :
    Same ((f.setFile x { f.file x with ref := (f.file x).ref + 1 }).setFd np fd (some x)) { s with
        fileRef := update s.fileRef x (s.fileRef x + 1)
        ofile := update s.ofile np (update (s.ofile np) fd (some x.val)) } where
  ofile q fd' := by
    have hd := h.ofile q fd'
    simp only [Sys.State.setFd, Sys.State.setFile, update_apply]
    grind
  fileRef y := by
    have hy := h.fileRef y
    simp only [Sys.State.setFd, Sys.State.setFile, update_apply]
    grind
  cwd := h.cwd
  inodeRef := h.inodeRef

lemma dupFiles_same (fds : List Sys.Fd) (h : Same f s) :
    wp (fun _ => True) (dupFiles cur np (fds.map Fin.val)) (fun _ s' => wp (fun _ => False) (Sys.forkFiles cur np fds)
      (fun _ f' => Same f' s' ∧ f'.cwd = f.cwd) f) s := by
  induction fds generalizing f s with
  | nil => exact wp_pure (wp_pure ⟨h, rfl⟩)
  | cons fd fds ih =>
    rw [map_cons]
    unfold dupFiles Sys.forkFiles
    apply wp_get_seq
    rw [h.ofile cur fd]
    cases hx : f.ofile (cur, fd) with
    | none =>
      refine wp_mono (ih h) fun _ s' h' => wp_get_seq ?_
      rw [hx]
      exact h'
    | some x =>
      -- `filedup` panics in both, or counts one more in both
      by_cases hr : (f.file x).ref < 1
      · refine wp_seq (Q := fun _ _ => False) (wp_get_seq ?_) (fun _ _ hF => hF.elim)
        rw [h.fileRef, if_pos hr]
        exact wp_throw trivial
      · refine wp_seq (Q := fun _ s₁ => s₁ = { s with fileRef := update s.fileRef x (s.fileRef x + 1) })
          (wp_get_seq ?_) ?_
        · rw [h.fileRef, if_neg hr, ← h.fileRef]
          exact wp_set rfl
        rintro _ _ rfl
        refine wp_modify_seq (wp_mono (ih (h.dup fd)) fun _ s' h' => wp_get_seq ?_)
        rw [hx]
        refine wp_seq (Q := fun _ f₁ => f₁ = f.setFile x { f.file x with ref := (f.file x).ref + 1 }) (wp_get_seq ?_) ?_
        · rw [if_neg hr]
          exact wp_modify rfl
        rintro _ _ rfl
        exact wp_modify_seq h'

lemma Same.idup (np : Slot) (h : Same f s) (hc : f.cwd cur = some ip) :
    wp (fun _ => False) (Sys.onFs (Fs.idup ip)) (fun r f' => r = ip ∧ Same (f'.setCwd np (some ip)) { s with
      cwd := update s.cwd np (s.cwd cur)
      inodeRef := update s.inodeRef (s.cwd cur) (s.inodeRef (s.cwd cur) + 1) }) f := by
  have hip := h.cwd cur ip hc
  refine wp_of_ok rfl ⟨rfl, h.ofile, h.fileRef, fun q ip' hq => ?_, fun ip' => ?_⟩
  · have hq' := h.cwd q ip'
    simp only [Sys.State.setCwd, update_apply] at hq ⊢
    grind
  · have hi := h.inodeRef ip'
    simp only [Sys.State.setCwd, Fs.Core.setInode, update_apply]
    grind

/-- **What `fork` does after `copyuvm` is what `Sys.fork` does**, to descriptors, files and inodes. -/
theorem forkRest_same (h : Same f s) (hc : f.cwd cur = some ip) (hn : f.cwd np = none) :
    wp (fun _ => True) (forkRest cur np) (fun _ s' =>
      wp (fun _ => False) (Sys.fork cur ip (some np)) (fun _ f' => Same f' s') f) s := by
  unfold forkRest Sys.fork
  refine wp_modify_seq (wp_modify_seq ?_)
  rw [← map_coe_finRange_eq_range]
  obtain ⟨fds, hfds⟩ : ∃ fds, fds = finRange NOFILE := ⟨_, rfl⟩
  rw [← hfds]
  refine wp_seq (dupFiles_same fds (f := f) ⟨h.ofile, h.fileRef, h.cwd, h.inodeRef⟩) fun _ s₁ h1 =>
    wp_modify_seq (wp_get_seq (wp_pure (wp_get_seq ?_)))
  rw [hn]
  refine wp_seq h1 fun _ f₁ h1 => wp_seq (h1.1.idup np (by rw [h1.2, hc])) ?_
  rintro _ f₂ ⟨rfl, h2⟩
  exact wp_modify_seq (wp_pure ⟨h2.ofile, h2.fileRef, h2.cwd, h2.inodeRef⟩)

end Vm

namespace Pipe
variable {ι : Type} [DecidableEq ι] {s s' t : State ι} {a : Label ι} {f : Sys.State} {k : Nat}

def State.ends (s : State ι) : Sys.PipeEnds := ⟨s.readopen, s.writeopen⟩

/-- the end that a step closes. -/
def shuts (e : State ι × Label ι) : Option Bool :=
  match e.2 with
  | .step p =>
    match e.1.pc p with
    | .loop (.close w) => some w
    | _ => none
  | _ => none

lemma ends_step (h : step s a = .ok s') : s'.ends = (shuts (s, a)).elim s.ends s.ends.close := by
  unfold shuts
  cases step_trans h <;> simp_all [State.ends, State.goto, Sys.PipeEnds.close, State.put, State.drop]

/-- the page `k` is the pipe `s`, or is free when both ends are closed. -/
def Holds (f : Sys.State) (k : Nat) (x : Sys.PipeEnds) : Prop :=
  f.page k = if x.readopen = false ∧ x.writeopen = false then none else some x

lemma Holds.pipeclose {x : Sys.PipeEnds} (h : Holds f k x) (w : Bool) :
    wp (fun _ => True) (Sys.pipeclose k w) (fun _ f' => Holds f' k (x.close w)) f := by
  unfold Sys.pipeclose
  apply wp_get_seq
  unfold Holds at h
  split at h
  · rw [h]
    exact wp_throw trivial
  · rw [h]
    unfold Holds
    dsimp only
    split
    · exact wp_modify (update_self ..)
    · exact wp_modify (update_self ..)

/-- **The page of a pipe has the ends of the pipe**, along every run: `pipeclose` is called once for each step that
closes an end. -/
theorem closes_holds {tr : Trace ι} (h : Path step s tr t) (hf : Holds f k s.ends) :
    wp (fun _ => True) ((tr.filterMap shuts).forM (Sys.pipeclose k)) (fun _ f' => Holds f' k t.ends) f := by
  induction h generalizing f with
  | nil => exact wp_pure hf
  | @cons s s' t a tr hs _ ih =>
    have he := ends_step hs
    rw [filterMap_cons]
    cases hw : shuts (s, a) with
    | none =>
      rw [hw] at he
      exact ih (by rw [he]; exact hf)
    | some w =>
      rw [hw] at he
      refine wp_seq (hf.pipeclose w) fun _ f' h' => ih ?_
      rw [he]
      exact h'

end Pipe
end Xv6
