import Xv6.Pipe.Fifo

/-!
# Lost wakeups

A process waits on `&p->nread` with the pipe empty and its write end open, and on `&p->nwrite` with the
pipe full and its read end open (`State.blocks`). The process that ends such a condition holds
`p->lock` and owes the channel a `wakeup`: what a run keeps (`Quiet.waits`) is that

    who waits on `ch` is blocked, or the holder of the lock owes `ch` a wakeup.

`pipewrite` breaks this on one way out: with the buffer full it tests `readopen == 0 || killed` before
`wakeup(&p->nread)`, and what it has stored since it took the lock is then announced to nobody. It
cannot happen (`careful`) while a writer that would take that way out has no more bytes left than
the buffer has room for, or finds the buffer full when it takes the lock.
-/

set_option linter.unusedSectionVars false

namespace Xv6.Pipe
open Lib Function List

variable {ι : Type} [DecidableEq ι] {s s' t : State ι} {a : Label ι} {p q : ι} {ch : Chan}
  {tr : Trace ι}
variable {src : List UInt8} {i : Nat} {pc k : Pc} {ch' : Chan}

/-- the pipe has woken everybody who has something to do. -/
def NoLostWakeup (s : State ι) : Prop :=
  s.lock = none →
    ((s.nread ≠ s.nwrite ∨ s.writeopen = false) → ∀ q, (s.pc q).sleeps .nread = false) ∧
    ((s.nwrite ≠ (s.nread + PIPESIZE) % UINT ∨ s.readopen = false) → ∀ q, (s.pc q).sleeps .nwrite = false)

/-- the free places of the buffer. -/
def State.room (s : State ι) : Nat := PIPESIZE - Ring.fill UINT s.nread s.nwrite

/-- the condition on a step: a writer that is killed, or without readers, takes the lock only when the
rest of its bytes has room or the buffer is full already; and no writer is killed in its loop with
more bytes to store than there is room. -/
def careful (s : State ι) : Label ι → Bool
  | .step p =>
    match s.pc p with
    | .enter (.write src i) =>
      s.killed p = true ∨ s.readopen = false → src.length - i ≤ s.room ∨ s.full
    | _ => true
  | .kill p =>
    match s.pc p with
    | .loop (.write src i) => src.length - i ≤ s.room
    | _ => true
  | .call _ _ => true

lemma careful_enter (h : careful s (.step p) = true) (hp : s.pc p = .enter (.write src i))
    (hk : s.killed p = true ∨ s.readopen = false) : src.length - i ≤ s.room ∨ s.full := by
  unfold careful at h
  dsimp only at h
  rw [hp] at h
  exact of_decide_eq_true h hk

lemma careful_kill (h : careful s (.kill p) = true)
    (hp : s.pc p = .loop (.write src i)) : src.length - i ≤ s.room := by
  unfold careful at h
  dsimp only at h
  rw [hp] at h
  exact of_decide_eq_true h

/-! ## who waits, and who owes a wakeup -/

/-- on the way to sleep on `ch`, or SLEEPING on it. -/
def Pc.waits (ch : Chan) : Pc → Prop
  | .wakeup _ (.sleep o) | .sleep o | .unlock o | .doze o | .asleep o => o.chan = some ch
  | _ => False

/-- a `wakeup(ch)` comes before the lock is given back. -/
def Pc.owes (ch : Chan) : Pc → Prop
  | .loop (.write _ _) => ch = .nread
  | .wakeup ch' _ => ch = ch'
  | .copy _ _ => ch = .nwrite
  | _ => False

/-- where a process holds `ptable.lock`. -/
def Pc.ptholds : Pc → Bool
  | .unlock _ | .doze _ => true
  | _ => false

/-- the condition under which a process goes to sleep on `ch`. -/
def State.blocks (s : State ι) : Chan → Prop
  | .nread => s.empty ∧ s.writeopen = true
  | .nwrite => s.full ∧ s.readopen = true

/-- a writer in its loop will not leave with a wakeup undone: its bytes have room, or it is to wait
when they have not, or nobody waits for the bytes. -/
def Safe (s : State ι) (p : ι) (src : List UInt8) (i : Nat) : Prop :=
  src.length - i ≤ s.room ∨ (s.killed p = false ∧ s.readopen = true) ∨ (s.full ∧ ∀ q, ¬ (s.pc q).waits .nread)

structure Quiet (s : State ι) : Prop where
  locked : Locked s
  ptlocked : Mutex s.ptlock Pc.ptholds s.pc
  counters : Counters s
  waits : ∀ q ch, (s.pc q).waits ch → s.blocks ch ∨ ∃ h, s.lock = some h ∧ (s.pc h).owes ch
  writer : ∀ h src i, s.pc h = .loop (.write src i) → Safe s h src i
  /-- before it sleeps a writer wakes the readers, and nobody else wakes anybody then. -/
  before : ∀ q ch o, s.pc q = .wakeup ch (.sleep o) → ch = .nread ∧ o.chan = some .nwrite

@[simp] lemma Pc.rouse_ptholds (pc : Pc) : pc.rouse.ptholds = pc.ptholds := by cases pc <;> rfl

@[simp] lemma wakeup1_ptholds (ch : Chan) (pc : ι → Pc) : (wakeup1 ch pc q).ptholds = (pc q).ptholds := by
  unfold wakeup1
  split
  · exact Pc.rouse_ptholds _
  · rfl

lemma Pc.sleeps_waits (h : pc.sleeps ch = true) : pc.waits ch := by
  cases pc with
  | asleep o =>
    show o.chan = some ch
    exact of_decide_eq_true h
  | _ => cases h

lemma Pc.owes_holds (h : pc.owes ch) : pc.holds = true := by
  cases pc with
  | loop => rfl
  | wakeup => rfl
  | copy => rfl
  | _ => cases h

lemma Counters.not_empty (h : Counters s) (hf : s.full) : ¬ s.empty := by
  intro he
  have h1 := h.full_iff.mp hf
  rw [h.empty_iff.mp he] at h1
  exact absurd h1 (by decide)

lemma Quiet.blocked (h : Quiet s) (hl : s.lock = none) (hw : (s.pc q).waits ch) : s.blocks ch := by
  rcases h.waits q ch hw with hb | ⟨r, hr, -⟩
  · exact hb
  · rw [hl] at hr; cases hr

/-- while `p` holds the lock and owes `ch` nothing, who waits on `ch` is blocked. -/
theorem Quiet.blocked_of (h : Quiet s) (hp : (s.pc p).holds = true) (ho : ¬ (s.pc p).owes ch)
    (hw : (s.pc q).waits ch) : s.blocks ch := by
  rcases h.waits q ch hw with hb | ⟨r, -, hr⟩
  · exact hb
  · rw [h.locked.unique (Pc.owes_holds hr) hp] at hr
    exact absurd hr ho

lemma Quiet.noLostWakeup (h : Quiet s) : NoLostWakeup s := by
  intro hl
  refine ⟨fun hc q => ?_, fun hc q => ?_⟩
  · by_contra hs
    have hb := h.blocked hl (Pc.sleeps_waits (Bool.of_not_eq_false hs))
    rcases hc with hc | hc
    · exact hc hb.1
    · exact absurd hb.2 (by rw [hc]; exact Bool.false_ne_true)
  · by_contra hs
    have hb := h.blocked hl (Pc.sleeps_waits (Bool.of_not_eq_false hs))
    rcases hc with hc | hc
    · exact hc hb.1
    · exact absurd hb.2 (by rw [hc]; exact Bool.false_ne_true)

/-! ## every step -/

section
variable (h : Quiet s)
include h

lemma Quiet.before_update (hk : ∀ ch o, k = .wakeup ch (.sleep o) → ch = .nread ∧ o.chan = some .nwrite) :
    ∀ q ch o, update s.pc p k q = .wakeup ch (.sleep o) → ch = .nread ∧ o.chan = some .nwrite :=
  pc_update (P := fun _ (k : Pc) => ∀ ch o, k = .wakeup ch (.sleep o) → ch = .nread ∧ o.chan = some .nwrite) hk
    fun q _ => h.before q

lemma Quiet.move {x : Option ι} (hx : Mutex x Pc.ptholds (update s.pc p k))
    (hh : k.holds = (s.pc p).holds) (hw : ∀ ch, k.waits ch → (s.pc p).waits ch ∨ s.blocks ch)
    (ho : ∀ ch, (s.pc p).owes ch → k.owes ch ∨ ∀ q, ¬ (s.pc q).waits ch)
    (hl : ∀ src i, k ≠ .loop (.write src i))
    (hb : ∀ ch o, k = .wakeup ch (.sleep o) → ch = .nread ∧ o.chan = some .nwrite) :
    Quiet { s.goto p k with ptlock := x } := by
  have hwaits : ∀ q ch, (update s.pc p k q).waits ch → (s.pc q).waits ch ∨ s.blocks ch :=
    pc_update (P := fun q (k : Pc) => ∀ ch, k.waits ch → (s.pc q).waits ch ∨ s.blocks ch) hw fun _ _ _ => .inl
  refine ⟨h.locked.move hh, hx, h.counters.of_eq rfl rfl, ?_, ?_, ?_⟩
  · intro q ch hnew
    rcases hwaits q ch hnew with hq | hq
    · rcases h.waits q ch hq with hbl | ⟨r, hr, hor⟩
      · exact .inl hbl
      · have howes := pc_update (P := fun r (k : Pc) => (s.pc r).owes ch → k.owes ch)
          (fun ho' => (ho ch ho').resolve_right fun hno => hno q hq) (fun _ _ => id) r
        exact .inr ⟨r, hr, howes hor⟩
    · exact .inl hq
  · intro r src i hr
    replace hr : update s.pc p k r = .loop (.write src i) := hr
    by_cases hrp : r = p
    · subst hrp
      rw [update_self] at hr
      exact absurd hr (hl src i)
    · rw [update_of_ne hrp] at hr
      rcases h.writer r src i hr with hs | hs | ⟨hf, hs⟩
      · exact .inl hs
      · exact .inr (.inl hs)
      · refine .inr (.inr ⟨hf, fun q hq => ?_⟩)
        rcases hwaits q .nread hq with hq | hq
        · exact hs q hq
        · exact h.counters.not_empty hf hq.1
  · exact h.before_update hb

/-- a step of the holder of `p->lock` on the buffer or the flags: it owes a wakeup to each channel
that it does not leave blocked. -/
theorem Quiet.change (hp : (s.pc p).holds = true) (hk : k.holds = true)
    (hpt : k.ptholds = (s.pc p).ptholds) (hlock : s'.lock = s.lock) (hptl : s'.ptlock = s.ptlock)
    (hpc : s'.pc = update s.pc p k) (hc : Counters s') (hw : ∀ ch, ¬ k.waits ch)
    (hbl : ∀ ch, k.owes ch ∨ (¬ (s.pc p).owes ch ∧ (s.blocks ch → s'.blocks ch)))
    (hs : ∀ src i, k = .loop (.write src i) → Safe s' p src i)
    (hb : ∀ ch o, k ≠ .wakeup ch (.sleep o)) : Quiet s' := by
  have hloc : Locked s' := by
    unfold Locked
    rw [hlock, hpc]
    exact h.locked.move (hk.trans hp.symm)
  have hself : s'.pc p = k := by rw [hpc, update_self]
  refine ⟨hloc, ?_, hc, ?_, ?_, ?_⟩
  · rw [hptl, hpc]
    exact h.ptlocked.move hpt
  · intro q ch hq
    by_cases hqp : q = p
    · rw [hqp, hself] at hq
      exact absurd hq (hw ch)
    · rw [hpc, update_of_ne hqp] at hq
      rcases hbl ch with ho | ⟨hno, hbk⟩
      · exact .inr ⟨p, by rw [hlock]; exact (h.locked p).mpr hp, by rw [hself]; exact ho⟩
      · exact .inl (hbk (h.blocked_of hp hno hq))
  · intro r src i hr
    have hrp : r = p := hloc.unique (by rw [hr]; rfl) (by rw [hself]; exact hk)
    rw [hrp, hself] at hr
    rw [hrp]
    exact hs src i hr
  · rw [hpc]
    exact h.before_update fun ch o hk => absurd hk (hb ch o)

lemma Quiet.give (hp : (s.pc p).holds = true) (hk : k.holds = false)
    (hpt : k.ptholds = (s.pc p).ptholds) (hno : ∀ ch, ¬ (s.pc p).owes ch)
    (hw : ∀ ch, k.waits ch → (s.pc p).waits ch) {f : Bool} :
    Quiet { s.goto p k with lock := none, freed := f } := by
  refine ⟨h.locked.give hp hk, h.ptlocked.move hpt,
    h.counters.of_eq rfl rfl, ?_, ?_, ?_⟩
  · intro q ch hq
    have hq' := pc_update (P := fun q (k : Pc) => k.waits ch → (s.pc q).waits ch) (hw ch) (fun _ _ => id) q hq
    exact .inl (h.blocked_of hp (hno ch) hq')
  · intro r src i hr
    replace hr : update s.pc p k r = .loop (.write src i) := hr
    by_cases hrp : r = p
    · rw [hrp, update_self] at hr
      rw [hr] at hk
      cases hk
    · rw [update_of_ne hrp] at hr
      exact absurd (h.locked.unique (by rw [hr]; rfl) hp) hrp
  · refine h.before_update fun ch o hko => ?_
    rw [hko] at hk
    cases hk

lemma Quiet.enter {o : Op} (hp : s.pc p = .enter o) (hl : s.lock = none)
    (hc : careful s (.step p) = true) : Quiet { s.goto p (.loop o) with lock := some p } := by
  have hwaits : ∀ q ch, (update s.pc p (.loop o) q).waits ch → s.blocks ch :=
    pc_update (P := fun _ (k : Pc) => ∀ ch, k.waits ch → s.blocks ch) (fun _ => nofun) fun q _ _ => h.blocked hl
  refine ⟨h.locked.take hl rfl, h.ptlocked.move (by rw [hp]; rfl),
    h.counters.of_eq rfl rfl,
    fun q ch hq => .inl (hwaits q ch hq), ?_, ?_⟩
  · intro r src i hr
    replace hr : update s.pc p (.loop o) r = .loop (.write src i) := hr
    by_cases hrp : r = p
    · rw [hrp, update_self] at hr
      cases hr
      rw [hrp]
      by_cases hk : s.killed p = true ∨ s.readopen = false
      · rcases careful_enter hc hp hk with hroom | hf
        · exact .inl hroom
        · exact .inr (.inr ⟨hf, fun q hq => h.counters.not_empty hf (hwaits q .nread hq).1⟩)
      · rw [not_or, Bool.not_eq_true, Bool.not_eq_false] at hk
        exact .inr (.inl hk)
    · rw [update_of_ne hrp] at hr
      have hfree := h.locked.free hl r
      rw [hr] at hfree
      cases hfree
  · exact h.before_update nofun

lemma Quiet.put {src : List UInt8} {i : Nat} {x : UInt8}
    (hp : s.pc p = .loop (.write src i)) (hi : src[i]? = some x) (hf : ¬ s.full) :
    Quiet ((s.put x).goto p (.loop (.write src (i + 1)))) := by
  have hc := h.counters.put hf x
  refine h.change (by rw [hp]; rfl) rfl (by rw [hp]; rfl) rfl rfl rfl
    ⟨hc.read_lt, hc.write_lt, hc.fill_le⟩ (fun _ => nofun) (fun ch => ?_) ?_ nofun
  · cases ch with
    | nread => exact .inl rfl
    | nwrite =>
      right
      rw [hp]
      exact ⟨nofun, fun hb => absurd hb.1 hf⟩
  · rintro _ _ ⟨⟩
    have hfill := h.counters.fill_put hf x
    have hlt := (List.getElem?_eq_some_iff.mp hi).1
    rcases h.writer p src i hp with hs | hs | hs
    · left
      have h1 : src.length - i ≤ PIPESIZE - Ring.fill UINT s.nread s.nwrite := hs
      show src.length - (i + 1) ≤ PIPESIZE - Ring.fill UINT (s.put x).nread (s.put x).nwrite
      rw [hfill]
      omega
    · exact .inr (.inl hs)
    · exact absurd hs.1 hf

lemma Quiet.take {n : Nat} {got : List UInt8} (hp : s.pc p = .copy n got)
    (he : ¬ s.empty) : Quiet (s.drop.goto p (.copy n (got ++ [s.front]))) := by
  have hc := h.counters.drop he
  refine h.change (by rw [hp]; rfl) rfl (by rw [hp]; rfl) rfl rfl rfl
    ⟨hc.read_lt, hc.write_lt, hc.fill_le⟩ (fun _ => nofun) (fun ch => ?_) nofun nofun
  cases ch with
  | nread =>
    right
    rw [hp]
    exact ⟨nofun, fun hb => absurd hb.1 he⟩
  | nwrite => exact .inl rfl

lemma Quiet.shutWrite (hp : s.pc p = .loop (.close true)) :
    Quiet { s.goto p (.wakeup .nread (.leave .closed)) with writeopen := false } := by
  refine h.change (by rw [hp]; rfl) rfl (by rw [hp]; rfl) rfl rfl rfl
    (h.counters.of_eq rfl rfl) (fun _ => nofun) (fun ch => ?_)
    nofun nofun
  cases ch with
  | nread => exact .inl rfl
  | nwrite =>
    right
    rw [hp]
    exact ⟨nofun, id⟩

lemma Quiet.shutRead (hp : s.pc p = .loop (.close false)) :
    Quiet { s.goto p (.wakeup .nwrite (.leave .closed)) with readopen := false } := by
  refine h.change (by rw [hp]; rfl) rfl (by rw [hp]; rfl) rfl rfl rfl
    (h.counters.of_eq rfl rfl) (fun _ => nofun) (fun ch => ?_)
    nofun nofun
  cases ch with
  | nread =>
    right
    rw [hp]
    exact ⟨nofun, id⟩
  | nwrite => exact .inl rfl

end

lemma Pc.not_waits_rouse (h : pc.sleeps ch = true) : ¬ pc.rouse.waits ch' := by
  cases pc with
  | asleep => exact nofun
  | _ => cases h

lemma Pc.rouse_eq_of_holds (h : pc.rouse.holds = true) : pc.rouse = pc := by
  cases pc with
  | asleep => cases h
  | _ => rfl

lemma Pc.waits_of_rouse (h : pc.rouse.waits ch) : pc.waits ch := by
  cases pc with
  | asleep => cases h
  | _ => exact h

section
variable (h : Quiet s)
include h

/-- after `wakeup1(ch)` by `p` nobody else waits on `ch`: who was on the way to sleep would have one of
the two locks. -/
theorem Quiet.waits_wakeup1 (hp : (s.pc p).holds = true) (hl : s.ptlock = none)
    (hqp : q ≠ p) (hw : (wakeup1 ch s.pc q).waits ch') : ch' ≠ ch ∧ (s.pc q).waits ch' := by
  unfold wakeup1 at hw
  split at hw
  · next hs => exact absurd hw (Pc.not_waits_rouse hs)
  · next hs =>
    refine ⟨?_, hw⟩
    rintro rfl
    have hholds : (s.pc q).holds = false := by
      by_contra hh
      exact hqp (h.locked.unique (Bool.of_not_eq_false hh) hp)
    have hpt := h.ptlocked.free hl q
    generalize s.pc q = pc at hw hs hholds hpt
    cases pc with
    | wakeup => cases hholds
    | sleep => cases hholds
    | unlock => cases hpt
    | doze => cases hpt
    | asleep => exact hs (decide_eq_true hw)
    | _ => cases hw

lemma Quiet.wakeup {k : Next} (hp : s.pc p = .wakeup ch k) (hl : s.ptlock = none) :
    Quiet { s with pc := update (wakeup1 ch s.pc) p k.pc } := by
  have hhold : (s.pc p).holds = true := by rw [hp]; rfl
  have hkpc : k.pc.holds = true := k.pc_holds
  have hloc := h.locked.step (.wakeup hp hl)
  -- who still waits, waits on the other channel
  have hwaits : ∀ q ch', (update (wakeup1 ch s.pc) p k.pc q).waits ch' → ch' ≠ ch ∧ (s.pc q).waits ch' := by
    intro q ch' hq
    by_cases hqp : q = p
    · subst hqp
      rw [update_self] at hq
      cases k with
      | leave => cases hq
      | sleep o =>
        obtain ⟨rfl, ho⟩ := h.before q ch o hp
        have he : some Chan.nwrite = some ch' := ho.symm.trans hq
        cases he
        refine ⟨nofun, ?_⟩
        rw [hp]
        exact ho
    · rw [update_of_ne hqp] at hq
      exact h.waits_wakeup1 hhold hl hqp hq
  have hself : ∀ r, (update (wakeup1 ch s.pc) p k.pc r).holds = true → r = p :=
    fun r hr => hloc.unique hr
      (by show (update (wakeup1 ch s.pc) p k.pc p).holds = true
          rw [update_self]; exact hkpc)
  refine ⟨hloc, ?_, h.counters.of_eq rfl rfl, ?_, ?_, ?_⟩
  · have h1 : Mutex s.ptlock Pc.ptholds (wakeup1 ch s.pc) :=
      h.ptlocked.congr fun q => wakeup1_ptholds ch s.pc
    apply h1.move
    rw [wakeup1_ptholds, hp]
    cases k <;> rfl
  · intro q ch' hq
    obtain ⟨hne, hw⟩ := hwaits q ch' hq
    refine .inl (h.blocked_of hhold ?_ hw)
    rw [hp]
    exact hne
  · intro r src i hr
    replace hr : update (wakeup1 ch s.pc) p k.pc r = .loop (.write src i) := hr
    rw [hself r (by rw [hr]; rfl), update_self] at hr
    cases k <;> cases hr
  · intro q ch' o hq
    replace hq : update (wakeup1 ch s.pc) p k.pc q = .wakeup ch' (.sleep o) := hq
    rw [hself q (by rw [hq]; rfl), update_self] at hq
    cases k <;> cases hq

lemma Quiet.kill (hc : careful s (.kill p) = true) :
    Quiet { s with killed := update s.killed p true
                   pc := update s.pc p (s.pc p).rouse } := by
  have hwaits : ∀ q ch, (update s.pc p (s.pc p).rouse q).waits ch → (s.pc q).waits ch :=
    pc_update (P := fun q (k : Pc) => ∀ ch, k.waits ch → (s.pc q).waits ch) (fun _ => Pc.waits_of_rouse) fun _ _ _ => id
  -- who has the lock is where it was
  have hsame : ∀ q, (update s.pc p (s.pc p).rouse q).holds = true → update s.pc p (s.pc p).rouse q = s.pc q :=
    pc_update (P := fun q (k : Pc) => k.holds = true → k = s.pc q) Pc.rouse_eq_of_holds fun _ _ _ => rfl
  have hloc : Mutex s.lock Pc.holds (update s.pc p (s.pc p).rouse) :=
    h.locked.move (Pc.rouse_holds _)
  refine ⟨hloc, h.ptlocked.move (Pc.rouse_ptholds _),
    h.counters.of_eq rfl rfl, ?_, ?_, ?_⟩
  · intro q ch hq
    rcases h.waits q ch (hwaits q ch hq) with hb | ⟨r, hr, ho⟩
    · exact .inl hb
    · refine .inr ⟨r, hr, ?_⟩
      show (update s.pc p (s.pc p).rouse r).owes ch
      rw [hsame r ((hloc r).mp hr)]
      exact ho
  · intro r src i hr
    replace hr : update s.pc p (s.pc p).rouse r = .loop (.write src i) := hr
    rw [hsame r (by rw [hr]; rfl)] at hr
    by_cases hrp : r = p
    · subst hrp
      have hroom := careful_kill hc hr
      exact .inl hroom
    · rcases h.writer r src i hr with hs | hs | hs
      · exact .inl hs
      · refine .inr (.inl ⟨?_, hs.2⟩)
        show update s.killed p true r = false
        rw [update_of_ne hrp]
        exact hs.1
      · exact .inr (.inr ⟨hs.1, fun q hq => hs.2 q (hwaits q _ hq)⟩)
  · intro q ch o hq
    replace hq : update s.pc p (s.pc p).rouse q = .wakeup ch (.sleep o) := hq
    rw [hsame q (by rw [hq]; rfl)] at hq
    exact h.before q ch o hq

/-- the way out of `pipewrite` that wakes nobody: nobody waits for the bytes. -/
theorem Quiet.quit (hp : s.pc p = .loop (.write src i)) (hi : i < src.length)
    (hf : s.full) (hk : s.readopen = false ∨ s.killed p = true) : ∀ q, ¬ (s.pc q).waits .nread := by
  rcases h.writer p src i hp with hs | hs | hs
  · have h1 : src.length - i ≤ PIPESIZE - Ring.fill UINT s.nread s.nwrite := hs
    rw [h.counters.full_iff.mp hf] at h1
    omega
  · rcases hk with hk | hk
    · exact absurd hs.2 (by rw [hk]; exact Bool.false_ne_true)
    · exact absurd hk (by rw [hs.1]; exact Bool.false_ne_true)
  · exact hs.2

theorem Quiet.step (ht : Trans s a s') (hc : careful s a = true) : Quiet s' := by
  cases ht with
  | @call p c hp | giveUp hp | read hp | ready hp =>
    exact h.move (h.ptlocked.move (by rw [hp]; rfl)) (by rw [hp]; rfl) (fun _ => nofun)
      (fun ch ho => by rw [hp] at ho; cases ho) nofun nofun
  | enter hp hl => exact h.enter hp hl hc
  | wrote hp | copied hp =>
    exact h.move (h.ptlocked.move (by rw [hp]; rfl)) (by rw [hp]; rfl) (fun _ => nofun)
      (fun ch ho => by rw [hp] at ho; exact .inl ho) nofun nofun
  | quit hp hi hf hk =>
    refine h.move (h.ptlocked.move (by rw [hp]; rfl)) (by rw [hp]; rfl) (fun _ => nofun) (fun ch ho => ?_) nofun nofun
    rw [hp] at ho
    obtain rfl : ch = .nread := ho
    exact .inr (h.quit hp hi hf hk)
  | wait hp hi hf ho =>
    refine h.move (h.ptlocked.move (by rw [hp]; rfl)) (by rw [hp]; rfl) (fun ch hw => ?_)
      (fun ch ho => by rw [hp] at ho; exact .inl ho) nofun ?_
    · cases hw
      exact .inr ⟨hf, ho⟩
    · rintro _ _ ⟨⟩
      exact ⟨rfl, rfl⟩
  | put hp hi hf => exact h.put hp hi hf
  | hungry hp he ho =>
    refine h.move (h.ptlocked.move (by rw [hp]; rfl)) (by rw [hp]; rfl) (fun ch hw => ?_)
      (fun ch ho => by rw [hp] at ho; cases ho) nofun nofun
    cases hw
    exact .inr ⟨he, ho⟩
  | take hp he => exact h.take hp he
  | shutWrite hp => exact h.shutWrite hp
  | shutRead hp => exact h.shutRead hp
  | wakeup hp hl => exact h.wakeup hp hl
  | sleep hp hl =>
    exact h.move (h.ptlocked.take hl rfl) (by rw [hp]; rfl) (fun ch hw => by rw [hp]; exact .inl hw)
      (fun ch ho => by rw [hp] at ho; cases ho) nofun nofun
  | unlock hp =>
    exact h.give (by rw [hp]; rfl) rfl (by rw [hp]; rfl) (fun ch ho => by rw [hp] at ho; cases ho)
      (fun ch hw => by rw [hp]; exact hw)
  | doze hp =>
    exact h.move (h.ptlocked.give (by rw [hp]; rfl) rfl) (by rw [hp]; rfl)
      (fun ch hw => by rw [hp]; exact .inl hw) (fun ch ho => by rw [hp] at ho; cases ho) nofun nofun
  | leave hp =>
    exact h.give (by rw [hp]; rfl) rfl (by rw [hp]; rfl) (fun ch ho => by rw [hp] at ho; cases ho)
      (fun ch hw => by cases hw)
  | kill => exact h.kill hc

end

lemma Quiet.pipealloc (data : Fin PIPESIZE → UInt8) (killed : ι → Bool) : Quiet (State.pipealloc data killed) :=
  ⟨.pipealloc data killed, fun _ => ⟨nofun, nofun⟩, (Books.pipealloc data killed).counters,
    fun _ _ => nofun, fun _ _ _ => nofun, fun _ _ _ => nofun⟩

/-- **No wakeup is lost** in a run in which no writer leaves a buffer that it has just filled. -/
theorem no_lost_wakeup {data : Fin PIPESIZE → UInt8} {killed : ι → Bool}
    (h : Path step (State.pipealloc data killed) tr t) (hc : ∀ e ∈ tr, careful e.1 e.2 = true) :
    NoLostWakeup t :=
  (h.invariant Quiet (fun s a => careful s a = true)
    (fun _ _ _ hI hC hst => hI.step (step_trans hst) hC) hc (.pipealloc data killed)).noLostWakeup

/-- a reader sleeps on the empty pipe: five steps after its call. -/
def readerSleeps : List (Label Bool) :=
  .call true (.read 1) :: replicate 5 (.step true)

/-- a writer finds the reader asleep and wakes it. -/
theorem no_lost_wakeup_woken : ∃ (tr : Trace Bool) (t : State Bool),
    Path step (State.pipealloc (fun _ => 0) fun _ => false) tr t ∧ t.lock = none ∧
      t.nread ≠ t.nwrite ∧ NoLostWakeup t := by
  obtain ⟨tr, t, h, hc, hl, hne⟩ : ∃ tr t, Path step (State.pipealloc (fun _ => 0) fun _ => false) tr t ∧
      (∀ e ∈ tr, careful e.1 e.2 = true) ∧ t.lock = none ∧ t.nread ≠ t.nwrite := Path.of_labels
    (readerSleeps ++ .call false (.write [1]) :: replicate 5 (.step false)) (by decide +kernel)
  exact ⟨tr, t, h, hl, hne, no_lost_wakeup h hc⟩

/-- the reader sleeps, the writer is killed in its `pipewrite` of one byte more than the buffer holds:
it fills the buffer and leaves, and the reader sleeps on with 512 bytes to read. -/
theorem killed_writer_loses_wakeup : ∃ (tr : Trace Bool) (t : State Bool),
    Path step (State.pipealloc (fun _ => 0) fun _ => false) tr t ∧ t.lock = none ∧
      t.pc false = .idle ∧ t.nread = 0 ∧ t.nwrite = 512 ∧ (t.pc true).sleeps .nread = true ∧
      ¬ NoLostWakeup t := by
  obtain ⟨tr, t, h, hl, hi, hr, hw, hs⟩ : ∃ tr t,
      Path step (State.pipealloc (fun _ => 0) fun _ => false) tr t ∧ t.lock = none ∧ t.pc false = .idle ∧
      t.nread = 0 ∧ t.nwrite = 512 ∧ (t.pc true).sleeps .nread = true := Path.of_labels
    (readerSleeps ++ .call false (.write (replicate 513 7)) :: .kill false ::
      replicate 515 (.step false)) (by decide +kernel)
  refine ⟨tr, t, h, hl, hi, hr, hw, hs, fun hno => ?_⟩
  have hne : t.nread ≠ t.nwrite := by
    rw [hr, hw]
    decide
  have hawake := (hno hl).1 (.inl hne) true
  rw [hs] at hawake
  cases hawake

end Xv6.Pipe
