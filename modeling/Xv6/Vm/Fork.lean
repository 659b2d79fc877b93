import Xv6.Vm.Copy
import Xv6.Proc.Machine

/-!
# `fork`, from its first statement to its return

The process table and the queues are those of `Kernel`; what that model leaves out of `struct proc` stands beside
it, and the free list is that of the memory (`Kernel.freelist` and `Proc.pgdir` are not used here). `fork` runs alone:
its parts are not interleaved with other CPUs.

`allocproc` puts the new process on `q0` before it asks for a page, and no path that fails takes it off again. All else
is put back: see `fork_spec`.
-/

namespace Xv6.Vm
open Lib Function List Option

structure State where
  ker : Kernel
  /-- `p->pgdir` -/
  dir : Slot → Option Nat
  sz : Slot → Nat
  ofile : Slot → Nat → Option Nat
  cwd : Slot → Nat
  /-- `f->ref`, of a file and of an inode. -/
  fileRef : Nat → Int
  inodeRef : Nat → Int
  mem : Mem

abbrev F := StateT State (Except Fault)

/-- a function of `kalloc.c` or `vm.c`. -/
def onMem {α : Type} (f : M α) : F α := zoom State.mem (fun s m => { s with mem := m }) f

def updProc (p : Slot) (f : Proc → Proc) : F Unit := modify fun s => { s with ker := s.ker.upd p f }

/-- the assignments of `allocproc` after the stack has been allocated. -/
def setTimes (np : Slot) : F Unit := modify fun s =>
  { s with
    ker := s.ker.upd np fun r =>
      { r with
        ctime := s.ker.now, etime := 0, rtime := 0, iotime := 0, num_run := 0,
        priority := if r.pid = 1 ∨ r.pid = 2 then 1 else 60 } }

def allocproc : F (Option Slot) := do
  let s ← get
  match s.ker.allocproc with
  | .error _ => throw .index
  | .ok (none, _) => pure none
  | .ok (some np, k) => do
    set { s with ker := k }
    let r ← onMem kalloc
    match r with
    | none => do
      updProc np fun r => { r with kstack := none, state := .UNUSED }
      pure none
    | some pg => do
      updProc np fun r => { r with kstack := some pg, context := .forkret }
      setTimes np
      pure (some np)

def filedup (f : Nat) : F Unit := do
  let s ← get
  if s.fileRef f < 1 then throw (.panic "filedup")
  else set { s with fileRef := update s.fileRef f (s.fileRef f + 1) }

/-- `np->ofile[i] = filedup(curproc->ofile[i])`, for the descriptors `is`. -/
def dupFiles (cur np : Slot) : List Nat → F Unit
  | [] => pure ()
  | i :: is => do
    let s ← get
    match s.ofile cur i with
    | none => dupFiles cur np is
    | some f => do
      filedup f
      modify fun s => { s with ofile := update s.ofile np (update (s.ofile np) i (some f)) }
      dupFiles cur np is

/-- what `fork` does when it has the address space `d`. -/
def forkRest (cur np : Slot) : F Int := do
  modify fun s => { s with sz := update s.sz np (s.sz cur) }
  updProc np fun r => { r with parent := some cur }
  dupFiles cur np (range NOFILE)
  modify fun s =>
    { s with
      cwd := update s.cwd np (s.cwd cur)
      inodeRef := update s.inodeRef (s.cwd cur) (s.inodeRef (s.cwd cur) + 1)
      ker := s.ker.upd np fun r =>
        { r with name := (s.ker.procs cur).name, state := .RUNNABLE, start := s.ker.now } }
  let s ← get
  pure (s.ker.procs np).pid

/-- what `fork` does when `copyuvm` has failed. -/
def forkFail (L : Link) (np : Slot) : F Int := do
  let s ← get
  match (s.ker.procs np).kstack with
  | none => throw (.panic "kfree")
  | some pg => do
    onMem (kfree L pg)
    updProc np fun r => { r with kstack := none, state := .UNUSED }
    pure (-1)

def fork (L : Link) (cur : Slot) : F Int := do
  let r ← allocproc
  match r with
  | none => pure (-1)
  | some np => do
    let s ← get
    match s.dir cur with
    | none => throw .null
    | some pd => do
      let d ← onMem (copyuvm L pd (s.sz cur))
      modify fun s => { s with dir := update s.dir np d }
      match d with
      | none => forkFail L np
      | some _ => forkRest cur np

/-! ## what stays -/

variable {L : Link} {s s' s₁ : State} {cur np : Slot} {E : Fault → Prop} {pg : Nat} {k k' : Kernel}

/-- all that is stored for one process. -/
def State.record (s : State) (p : Slot) : Proc × Option Nat × Nat × (Nat → Option Nat) × Nat :=
  (s.ker.procs p, s.dir p, s.sz p, s.ofile p, s.cwd p)

/-- the processes, the reference counts and the free pages are as before. -/
structure Rest (s s' : State) : Prop where
  live : ∀ p, (s.ker.procs p).state ≠ .UNUSED → s'.record p = s.record p
  dead : ∀ p, (s.ker.procs p).state = .UNUSED → (s'.ker.procs p).state = .UNUSED
  files : s'.fileRef = s.fileRef
  inodes : s'.inodeRef = s.inodeRef
  pages : ∀ p, p ∈ s'.mem.freelist ↔ p ∈ s.mem.freelist

/-- and so are the five queues with their counters. -/
def Unchanged (s s' : State) : Prop := Rest s s' ∧ s'.ker.queue = s.ker.queue

/-- what `fork` finds: the free list is one, and the address space of the process is no part of it. -/
structure Ready (L : Link) (s : State) (cur : Slot) : Prop where
  nodup : s.mem.freelist.Nodup
  page : ∀ p ∈ s.mem.freelist, L.Page p
  dir : ∀ pd, s.dir cur = some pd → Foreign (· ∈ s.mem.freelist) s.mem pd ∧
    ∀ v, v < pages (s.sz cur) → Present (s.mem.pte pd v)
  size : s.sz cur ≤ KERNBASE
  live : (s.ker.procs cur).state ≠ .UNUSED

lemma wp_onMem {α : Type} {f : M α} {Q : α → Mem → Prop} (h : wp E f Q s.mem) :
    wp E (onMem f) (fun a s' => ∃ m', s' = { s with mem := m' } ∧ Q a m') s := wp_zoom _ _ h

lemma allocproc_some (h : k.allocproc = .ok (some np, k')) :
    (k.procs np).state = .UNUSED ∧ ∃ q, (k.queue 0).push NPROC np = some q ∧ k' = (k.embryo np).setQueue 0 q := by
  unfold Kernel.allocproc at h
  cases hf : k.find (fun r => r.state = .UNUSED) with
  | none =>
    rw [hf] at h
    cases h
  | some p =>
    rw [hf] at h
    cases hp : (k.embryo p).push 0 p with
    | error =>
      simp only [hp] at h
      cases h
    | ok =>
      simp only [hp] at h
      cases h
      obtain ⟨q, hq, hk⟩ := Kernel.push_ok hp
      exact ⟨of_decide_eq_true (Kernel.find_some hf), q, hq, hk⟩

lemma allocproc_none (h : k.allocproc = .ok (none, k')) : k' = k ∧ ∀ p, (k.procs p).state ≠ .UNUSED := by
  unfold Kernel.allocproc at h
  cases hf : k.find (fun r => r.state = .UNUSED) with
  | none =>
    rw [hf] at h
    cases h
    refine ⟨rfl, fun p hp => ?_⟩
    have := find?_eq_none.mp hf p (mem_finRange p)
    exact this (decide_eq_true hp)
  | some p =>
    rw [hf] at h
    cases hp : (k.embryo p).push 0 p with
    | error | ok =>
      simp only [hp] at h
      cases h

lemma top_push {q q' : ArrQueue Slot} (h : q.push NPROC np = some q') : q'.top = q.top + 1 := by
  unfold ArrQueue.push at h
  split at h
  · cases h
    rfl
  · cases h

/-- the slot `np` was taken, its entry of `q0` made, and nothing but its record was written since. -/
structure Alloced (s s' : State) (np : Slot) : Prop where
  unused : (s.ker.procs np).state = .UNUSED
  others : ∀ p, p ≠ np → s'.record p = s.record p
  top : (s'.ker.queue 0).top = (s.ker.queue 0).top + 1
  files : s'.fileRef = s.fileRef
  inodes : s'.inodeRef = s.inodeRef

lemma Alloced.next (h : Alloced s s₁ np) (hr : ∀ p, p ≠ np → s'.record p = s₁.record p)
    (hq : s'.ker.queue = s₁.ker.queue) (hf : s'.fileRef = s₁.fileRef) (hi : s'.inodeRef = s₁.inodeRef) :
    Alloced s s' np where
  unused := h.unused
  others := fun p hp => (hr p hp).trans (h.others p hp)
  top := hq ▸ h.top
  files := hf.trans h.files
  inodes := hi.trans h.inodes

lemma Alloced.rest (h : Alloced s s' np) (hu : (s'.ker.procs np).state = .UNUSED)
    (hp : ∀ p, p ∈ s'.mem.freelist ↔ p ∈ s.mem.freelist) : Rest s s' where
  live := fun p hs => h.others p fun e => hs (e ▸ h.unused)
  dead := fun p hs => by
    by_cases e : p = np
    · rw [e]
      exact hu
    · have hrec := congrArg (fun r => r.1.state) (h.others p e)
      exact hrec.trans hs
  files := h.files
  inodes := h.inodes
  pages := hp

/-! ## the parts of `fork` -/

/-- the state after `allocproc`. -/
structure Stacked (s s₁ : State) (np : Slot) (pg : Nat) : Prop where
  alloced : Alloced s s₁ np
  kstack : (s₁.ker.procs np).kstack = some pg
  pid : (s₁.ker.procs np).pid = s.ker.nextpid
  mem : ∃ l, s.mem.freelist = pg :: l ∧ s₁.mem = { s.mem with freelist := l }

lemma alloced_embryo {q : ArrQueue Slot} (hu : (s.ker.procs np).state = .UNUSED)
    (hq : (s.ker.queue 0).push NPROC np = some q) :
    Alloced s { s with ker := (s.ker.embryo np).setQueue 0 q } np where
  unused := hu
  others := fun p hp => by
    have e : ((s.ker.embryo np).setQueue 0 q).procs p = s.ker.procs p := update_of_ne hp _ _
    unfold State.record
    rw [e]
  top := by
    rw [Kernel.setQueue_same]
    exact top_push hq
  files := rfl
  inodes := rfl

lemma allocproc_spec : wp (fun _ => True) allocproc (fun r s₁ =>
    (r = none → (∀ p, (s.ker.procs p).state ≠ .UNUSED) ∧ s₁ = s ∨ ∃ np, Alloced s s₁ np ∧ Rest s s₁) ∧
    (∀ np, r = some np → ∃ pg, Stacked s s₁ np pg)) s := by
  unfold allocproc
  apply wp_get_seq
  cases ha : s.ker.allocproc with
  | error => exact wp_throw trivial
  | ok x =>
    obtain ⟨o, k⟩ := x
    cases o with
    | none =>
      refine wp_pure ⟨fun _ => .inl ⟨(allocproc_none ha).2, rfl⟩, fun np hn => absurd hn.symm (some_ne_none np)⟩
    | some np =>
      obtain ⟨hu, q, hq, rfl⟩ := allocproc_some ha
      have hal := alloced_embryo hu hq
      apply wp_seq (wp_set (Q := fun _ s₁ => s₁ = { s with ker := (s.ker.embryo np).setQueue 0 q }) rfl)
      rintro _ _ rfl
      refine wp_seq (wp_onMem (Q := fun r m => (r = none → m = s.mem) ∧ ∀ pg, r = some pg → ∃ l,
        s.mem.freelist = pg :: l ∧ m = { s.mem with freelist := l }) ?_) ?_
      · cases hl : s.mem.freelist with
        | nil => exact wp_of_ok (kalloc_nil hl) ⟨fun _ => rfl, fun pg hp => absurd hp.symm (some_ne_none pg)⟩
        | cons pg l =>
          refine wp_of_ok (kalloc_cons hl) ⟨fun hc => absurd hc (some_ne_none pg), fun pg' hp => ?_⟩
          rw [← some.inj hp]
          exact ⟨l, rfl, rfl⟩
      rintro r _ ⟨m, rfl, hnone, hsome⟩
      cases r with
      | none =>
        refine wp_modify_seq (wp_pure ⟨fun _ => .inr ⟨np, ?_⟩, fun p hp => absurd hp.symm (some_ne_none p)⟩)
        have hal' : Alloced s { s with
            ker := ((s.ker.embryo np).setQueue 0 q).upd np fun r => { r with kstack := none, state := .UNUSED },
            mem := m } np := by
          refine hal.next (fun p hp => ?_) rfl rfl rfl
          unfold State.record
          rw [Kernel.upd_of_ne _ _ hp]
        refine ⟨hal', hal'.rest ?_ fun p => ?_⟩
        · dsimp only
          rw [Kernel.upd_same]
        · rw [hnone rfl]
      | some pg =>
        refine wp_modify_seq (wp_modify_seq (wp_pure ⟨fun hc => absurd hc (some_ne_none np), fun p hp => ?_⟩))
        rw [← some.inj hp]
        refine ⟨pg, ⟨?_, ?_, ?_, hsome pg rfl⟩⟩
        · refine hal.next (fun p hp => ?_) rfl rfl rfl
          unfold State.record
          rw [Kernel.upd_of_ne _ _ hp, Kernel.upd_of_ne _ _ hp]
        · rw [Kernel.upd_same, Kernel.upd_same]
        · rw [Kernel.upd_same, Kernel.upd_same]
          show (((s.ker.embryo np).setQueue 0 q).procs np).pid = s.ker.nextpid
          unfold Kernel.embryo
          rw [Kernel.setQueue_procs]
          dsimp only
          rw [Kernel.upd_same]

lemma dupFiles_spec : ∀ (is : List Nat) (s : State),
    wp (fun _ => True) (dupFiles cur np is) (fun _ s' => s'.ker = s.ker ∧ s'.mem = s.mem) s := by
  intro is
  induction is with
  | nil => exact fun s => wp_pure ⟨rfl, rfl⟩
  | cons i is ih =>
    intro s
    unfold dupFiles
    apply wp_get_seq
    cases hf : s.ofile cur i with
    | none => exact ih s
    | some =>
      refine wp_seq (Q := fun _ s' => s'.ker = s.ker ∧ s'.mem = s.mem) ?_ fun _ s' h' => ?_
      · unfold filedup
        apply wp_get_seq
        split
        · exact wp_throw trivial
        · exact wp_set ⟨rfl, rfl⟩
      · refine wp_modify_seq (wp_mono (ih _) fun _ s'' h'' => ?_)
        exact ⟨h''.1.trans h'.1, h''.2.trans h'.2⟩

lemma forkRest_spec (hne : cur ≠ np) : wp (fun _ => True) (forkRest cur np) (fun r s' =>
    s'.ker = (s.ker.upd np fun r => { r with parent := some cur, name := (s.ker.procs cur).name }).upd np
      (fun r => { r with state := .RUNNABLE, start := s.ker.now }) ∧
    s'.mem = s.mem ∧ r = (s.ker.procs np).pid) s := by
  unfold forkRest
  refine wp_modify_seq (wp_modify_seq ?_)
  -- the list of the descriptors is not to be evaluated
  obtain ⟨is, his⟩ : ∃ is, is = range NOFILE := ⟨_, rfl⟩
  rw [← his]
  refine wp_seq (dupFiles_spec is _) fun _ s₁ h1 => wp_modify_seq (wp_get_seq (wp_pure ⟨?_, h1.2, ?_⟩))
  · simp only [h1.1, Kernel.upd, update_idem, update_self, update_of_ne hne]
    rfl
  · rw [Kernel.upd_same]
    show (s₁.ker.procs np).pid = _
    rw [h1.1]
    dsimp only
    rw [Kernel.upd_same]

lemma forkFail_run (hs : (s.ker.procs np).kstack = some pg) (hpg : L.Page pg) :
    wp (fun _ => True) (forkFail L np) (fun r s' => r = -1 ∧ s' = { s with
      ker := s.ker.upd np fun r => { r with kstack := none, state := .UNUSED }, mem := s.mem.release pg }) s := by
  unfold forkFail
  apply wp_get_seq
  rw [hs]
  have hk : wp (fun _ : Fault => True) (kfree L pg >>= pure) (fun _ m' => m' = s.mem.release pg) s.mem :=
    wp_kfree_seq hpg (wp_pure rfl)
  rw [bind_pure] at hk
  apply wp_seq (wp_onMem hk)
  rintro _ _ ⟨m, rfl, rfl⟩
  exact wp_modify_seq (wp_pure ⟨rfl, rfl⟩)

lemma forkFail_spec (hst : Stacked s s₁ np pg) (hs : (s'.ker.procs np) = s₁.ker.procs np)
    (hal : Alloced s s' np) (hp : Pool L (Without (· ∈ s.mem.freelist) pg) s'.mem.freelist fun _ => none)
    (hpg : L.Page pg) (hin : pg ∈ s.mem.freelist) :
    wp (fun _ => True) (forkFail L np) (fun r s'' => r = -1 ∧ Alloced s s'' np ∧ Rest s s'') s' := by
  refine wp_mono (forkFail_run (hs ▸ hst.kstack) hpg) ?_
  rintro _ _ ⟨rfl, rfl⟩
  have hal' : Alloced s { s' with
      ker := s'.ker.upd np fun r => { r with kstack := none, state := .UNUSED }, mem := s'.mem.release pg } np := by
    refine hal.next (fun p hp => ?_) rfl rfl rfl
    unfold State.record
    rw [Kernel.upd_of_ne _ _ hp]
  refine ⟨rfl, hal', hal'.rest ?_ fun p => ?_⟩
  · dsimp only
    rw [Kernel.upd_same]
  · exact mem_of_pool (hp.give hin hpg) p

/-- `copyuvm` in `fork`: the address space of the process is copied, without the page of the stack. -/
theorem fork_copyuvm {pg pd : Nat} (h : Ready L s cur) (hst : Stacked s s₁ np pg) (hpd : s.dir cur = some pd) :
    pg ∈ s.mem.freelist ∧ Pool L (Without (· ∈ s.mem.freelist) pg) s₁.mem.freelist (fun _ => none) ∧
    wp (fun _ => True) (onMem (copyuvm L pd (s.sz cur))) (fun d s₂ => ∃ m, s₂ = { s₁ with mem := m } ∧
      (d = none → Pool L (Without (· ∈ s.mem.freelist) pg) m.freelist fun _ => none) ∧
      ∀ d', d = some d' → Space L (Without (· ∈ s.mem.freelist) pg) m d') s₁ := by
  obtain ⟨hf, hall⟩ := h.dir pd hpd
  obtain ⟨l, hl, hm⟩ := hst.mem
  have hpool : Pool L (· ∈ s.mem.freelist) (pg :: l) fun _ => none := hl ▸ Pool.start h.nodup h.page
  obtain ⟨hin, -, hpool'⟩ := hpool.take
  have hcopy := copyuvm_spec (E := fun _ => True) (m := s₁.mem) (D := Without (· ∈ s.mem.freelist) pg)
    (by rw [hm]; exact hpool') (by rw [hm]; exact fun u p hu hp => hf u p hu hp.1) h.size
    (by rw [hm]; exact hall)
  refine ⟨hin, by rw [hm]; exact hpool', wp_mono (wp_onMem hcopy) ?_⟩
  rintro d _ ⟨m, rfl, -, hno, hs⟩
  exact ⟨m, rfl, hno, fun d' hd => (hs d' hd).1⟩

lemma Stacked.parent (hst : Stacked s s₁ np pg) (hl : (s.ker.procs cur).state ≠ .UNUSED) :
    cur ≠ np ∧ s₁.dir cur = s.dir cur ∧ s₁.sz cur = s.sz cur := by
  have hne : cur ≠ np := by
    rintro rfl
    exact hl hst.alloced.unused
  have hrec := hst.alloced.others cur hne
  exact ⟨hne, congrArg (fun r => r.2.1) hrec, congrArg (fun r => r.2.2.1) hrec⟩

/-- **What `fork` does to the queues and to the rest.** -/
theorem fork_spec (h : Ready L s cur) : wp (fun _ => True) (fork L cur) (fun r s' =>
    ((∀ p, (s.ker.procs p).state ≠ .UNUSED) ∧ r = -1 ∧ s' = s) ∨
    ∃ np, (s.ker.procs np).state = .UNUSED ∧ (s'.ker.queue 0).top = (s.ker.queue 0).top + 1 ∧
      (r = s.ker.nextpid ∨ r = -1 ∧ Rest s s')) s := by
  unfold fork
  refine wp_seq allocproc_spec fun r s₁ h1 => ?_
  obtain ⟨hnone, hsome⟩ := h1
  cases r with
  | none =>
    rcases hnone rfl with ⟨hall, rfl⟩ | ⟨np, hal, hrest⟩
    · exact wp_pure (.inl ⟨hall, rfl, rfl⟩)
    · exact wp_pure (.inr ⟨np, hal.unused, hal.top, .inr ⟨rfl, hrest⟩⟩)
  | some np =>
    obtain ⟨pg, hst⟩ := hsome np rfl
    have hal := hst.alloced
    obtain ⟨hne, hdir, hsz⟩ := hst.parent h.live
    apply wp_get_seq
    rw [hdir, hsz]
    cases hpd : s.dir cur with
    | none => exact wp_throw trivial
    | some pd =>
      obtain ⟨hin, -, hcopy⟩ := fork_copyuvm h hst hpd
      apply wp_seq hcopy
      rintro d _ ⟨m2, rfl, hno, -⟩
      apply wp_modify_seq
      have hal2 : Alloced s { s₁ with mem := m2, dir := update s₁.dir np d } np := by
        refine hal.next (fun p hp => ?_) rfl rfl rfl
        unfold State.record
        dsimp only
        rw [update_of_ne hp]
      cases d with
      | none =>
        refine wp_mono (forkFail_spec hst rfl hal2 (hno rfl) (h.page pg hin) hin) fun r s' h' => ?_
        exact .inr ⟨np, hal.unused, h'.2.1.top, .inr ⟨h'.1, h'.2.2⟩⟩
      | some =>
        refine wp_mono (forkRest_spec hne) fun r s' h' => .inr ⟨np, hal.unused, ?_, .inl (h'.2.2.trans hst.pid)⟩
        rw [h'.1]
        exact hal.top

/-- **A failed `fork` changes nothing, if and only if there was no free slot.** Where it got a slot, the entry of `q0`
stays; the processes, the reference counts and the free pages are the same in either case (unless -1 is the pid of the
child). -/
theorem failed_fork_iff (L : Link) (s s' : State) (cur : Slot) (h : Ready L s cur)
    (hf : fork L cur s = .ok (-1, s')) :
    (Unchanged s s' ↔ ∀ p, (s.ker.procs p).state ≠ .UNUSED) ∧ (s.ker.nextpid ≠ -1 → Rest s s') := by
  rcases (fork_spec h).elim.1 _ _ hf with ⟨hall, -, rfl⟩ | ⟨np, hu, htop, hr⟩
  · have hrest : Rest s' s' := ⟨fun _ _ => rfl, fun _ hp => hp, rfl, rfl, fun _ => Iff.rfl⟩
    exact ⟨⟨fun _ => hall, fun _ => ⟨hrest, rfl⟩⟩, fun _ => hrest⟩
  · refine ⟨⟨fun hc => ?_, fun hc => absurd hu (hc np)⟩, fun hn => ?_⟩
    · rw [hc.2] at htop
      omega
    · rcases hr with hr | hr
      · exact absurd hr.symm hn
      · exact hr.2

/-- init, with one page of memory, and no free page. -/
def starved : State where
  ker := firstKernel 2 0
  dir := fun _ => some 300
  sz := fun _ => 4096
  ofile := fun _ _ => none
  cwd := fun _ => 0
  fileRef := fun _ => 0
  inodeRef := fun _ => 1
  mem := { onePage with freelist := [] }

/-- a table without a free slot. -/
def crowded : State :=
  { starved with ker := { starved.ker with procs := fun _ => (firstKernel 2 0).procs 0 } }

lemma starved_ready (s : State) (hm : s.mem = { onePage with freelist := [] }) (hd : s.dir = fun _ => some 300)
    (hz : s.sz = fun _ => 4096) (hl : (s.ker.procs 0).state ≠ .UNUSED) : Ready stock s 0 := by
  have e : s.mem.freelist = [] := by rw [hm]
  refine ⟨by rw [e]; exact nodup_nil, fun p hp => ?_, fun pd hpd => ⟨fun u p _ hp => ?_, fun v hv => ?_⟩,
    by rw [hz]; decide, hl⟩
  · rw [e] at hp
    exact absurd hp not_mem_nil
  · rw [e] at hp
    exact absurd hp not_mem_nil
  · rw [hd] at hpd
    have hpd : pd = 300 := (some.inj hpd).symm
    rw [hz] at hv
    have hv : v < 1 := hv
    have hv0 : v = 0 := by omega
    have hpte : s.mem.pte pd v = onePage.pte 300 0 := by rw [hm, hpd, hv0]; rfl
    rw [hpte, onePage_pte]
    decide

/-- a `fork` that finds no slot. -/
theorem failed_fork_crowded : ∃ s', fork stock 0 crowded = .ok (-1, s') ∧ Unchanged crowded s' := by
  have hrun : fork stock 0 crowded = .ok (-1, crowded) := rfl
  refine ⟨crowded, hrun, ?_⟩
  refine (failed_fork_iff stock crowded crowded 0 (starved_ready _ rfl rfl rfl (by decide)) hrun).1.mpr fun p => ?_
  show ((firstKernel 2 0).procs 0).state ≠ .UNUSED
  decide

/-- a `fork` that finds a slot and no page: the entry stays in `q0`. -/
theorem fork_without_page_keeps_entry : ∃ s', fork stock 0 starved = .ok (-1, s') ∧
    (starved.ker.queue 0).entries = [0] ∧ (s'.ker.queue 0).entries = [0, 1] ∧ (s'.ker.procs 1).state = .UNUSED ∧
    ¬ Unchanged starved s' := by
  refine ⟨_, rfl, rfl, rfl, rfl, fun h => ?_⟩
  have hq : (1 : Int) = 0 := congrArg (fun q : Fin 5 → ArrQueue Slot => (q 0).top) h.2
  exact absurd hq (by decide)

end Xv6.Vm
