import Xv6.Ide.Queue

/-!
# What becomes of a request

`submitted`, `served` and `completed` are the buffers that a run has linked into the queue, that the disk
has executed, and that `ideintr` has taken:

    submitted tr = completed tr ++ L,     served tr = completed tr ++ (the head of L, if it is executed).

A call of `iderw` has one moment at which it takes effect, when the disk executes its command: then the
buffer that the caller gets back and the disk are what `Buf.transfer`, the `iderw` of `memide.c`, makes
of the buffer that it has asked for and the disk (`Got`). Up to then the buffer is not touched
(`Asked`).

While somebody holds `idelock` its holder can go on, and else a caller, the disk or its interrupt can
(`driver_never_stuck`).
-/

set_option linter.unusedSectionVars false

namespace Xv6.Ide
open Lib Function List Option

variable {ι β δ : Type} [DecidableEq ι] [DecidableEq β] {s s' t : State ι β δ} {L L' : List β}
  {p q : ι} {b c : β} {k k₀ : Pc β} {x y : Buf δ} {a : Label ι β δ} {e : Event β}
  {tr : Trace ι β δ} {c : Cmd δ} {s' : State ι β δ} {disk : Key → δ}

namespace Event

def submitted : Event β → Option β
  | .submit b => some b
  | _ => none

def served : Event β → Option β
  | .serve b => some b
  | _ => none

def completed : Event β → Option β
  | .complete b => some b
  | _ => none

end Event

def submitted (tr : Trace ι β δ) : List β :=
  tr.filterMap fun e => (event e.1 e.2).submitted

def served (tr : Trace ι β δ) : List β :=
  tr.filterMap fun e => (event e.1 e.2).served

def completed (tr : Trace ι β δ) : List β :=
  tr.filterMap fun e => (event e.1 e.2).completed

/-! ## the books of the queue -/

structure Books (tr : Trace ι β δ) (s : State ι β δ) (L : List β) : Prop where
  submitted : submitted tr = completed tr ++ L
  due : s.done → served tr = completed tr ++ L.take 1
  fresh : ¬ s.done → served tr = completed tr

lemma Ok.done_cons (h : Ok s L) (hd : s.done) : ∃ b L', L = b :: L' := by
  obtain ⟨c, hc, -⟩ := hd
  obtain ⟨-, b, hb, -⟩ := h.busy c hc
  cases L with
  | nil => cases hb
  | cons b L' => exact ⟨b, L', rfl⟩

lemma Ok.idequeue (h : Ok s (b :: L)) : s.idequeue = some b := h.chain.head

lemma Ok.cmd_cons (h : Ok s L) (hc : s.cmd = some c) : ∃ b L', L = b :: L' ∧ c.For (s.buf b) s.disk s.port := by
  obtain ⟨-, b, hb, hf⟩ := h.busy c hc
  cases L with
  | nil => cases hb
  | cons b' L' =>
    cases hb
    exact ⟨b, L', rfl, hf⟩

lemma event_serve (h : s.idequeue = some b) : event s .disk = .serve b := by
  unfold event
  rw [h]
  rfl

lemma not_done_of_cmd (hc : s.cmd = some c) (hd : c.done = false) : ¬ s.done := by
  rintro ⟨c', hc', hd'⟩
  rw [hc] at hc'
  cases hc'
  rw [hd] at hd'
  cases hd'

/-- the buffer of a call of `iderw`, and whether it was linked into the queue. -/
def Pc.stage : Pc β → Option (Bool × β)
  | .enter b | .append b | .walk b _ => some (false, b)
  | .start b | .wait b | .asleep b | .ready b | .leave b => some (true, b)
  | _ => none

lemma Ok.owner_of_stage {z : Bool × β} (h : Ok s L) (hq : (s.pc q).stage = some z) : s.owner z.2 = some q := by
  have hf := h.fits q
  cases hk : s.pc q with
  | idle | intr | pop | wake | next | quit =>
    rw [hk] at hq
    cases hq
  | _ =>
    rw [hk] at hf hq
    cases hq
    exact hf.1

lemma Ok.not_mem_of_stage (h : Ok s L) (hq : (s.pc q).stage = some (false, b)) : b ∉ L := by
  have hf := h.fits q
  cases hk : s.pc q with
  | enter | append | walk =>
    rw [hk] at hf hq
    cases hq
    exact hf.2.1
  | _ =>
    rw [hk] at hq
    cases hq

/-- what a step means for the requests. -/
inductive Means (s : State ι β δ) (a : Label ι β δ) (s' : State ι β δ) : List β → Event β → Prop
  | other {L : List β} (done : s'.done ↔ s.done) (disk : s'.disk = s.disk) (port : s'.port = s.port)
      (stage : ∀ q z, (s'.pc q).stage = some z →
        (a = .iderw q z.2 ∧ z.1 = false ∧ (s.buf z.2).clean = false ∧ s'.buf = s.buf) ∨
        ((s.pc q).stage = some z ∧ s'.buf z.2 = s.buf z.2 ∧ ∀ d, a ≠ .iderw q d)) : Means s a s' L .other
  | submit {L : List β} {p : ι} {b : β} (label : a = .step p) (before : (s.pc p).stage = some (false, b))
      (after : (s'.pc p).stage = some (true, b)) (others : ∀ q, q ≠ p → s'.pc q = s.pc q)
      (buf : s'.buf = s.buf) (disk : s'.disk = s.disk) (port : s'.port = s.port) (cmd : s'.cmd = s.cmd) :
      Means s a s' L (.submit b)
  | serve {L : List β} {b : β} (label : a = .disk) (before : ¬ s.done) (after : s'.done) (pc : s'.pc = s.pc)
      (buf : s'.buf = s.buf)
      (effect : (s.buf b).transfer s.disk = ((s.buf b).finish s'.port, s'.disk)) : Means s a s' (b :: L) (.serve b)
  | complete {L : List β} {p : ι} {b : β} (label : a = .step p) (before : s.done) (after : ¬ s'.done)
      (stage : ∀ q, (s'.pc q).stage = (s.pc q).stage)
      (buf : s'.buf = Function.update s.buf b ((s.buf b).finish s.port)) (disk : s'.disk = s.disk) :
      Means s a s' (b :: L) (.complete b)

lemma stage_update {k : Pc β} (h : s.pc p = k₀) (hk : k.stage = k₀.stage) (q : ι) :
    (update s.pc p k q).stage = (s.pc q).stage :=
  pc_update (P := fun q k => k.stage = (s.pc q).stage) (by rw [hk, h]) (fun _ _ => rfl) q

@[simp] lemma rouse_stage : (k.rouse b).stage = k.stage := by
  obtain ⟨rfl, h⟩ | ⟨-, h⟩ := rouse_cases b k
  · rw [h]; rfl
  · rw [h]

lemma Cmd.For.transfer_write {port d : δ} (h : c.For x disk port)
    (ho : c.out = some d) : x.transfer disk = (x.finish port, update disk c.key d) := by
  have hout := h.out
  rw [ho] at hout
  unfold Buf.transfer Buf.finish
  split at hout
  · next hx =>
    rw [if_pos hx, if_pos hx, h.key, some.inj hout]
  · cases hout

lemma Cmd.For.transfer_read {port : δ} (h : c.For x disk port)
    (ho : c.out = none) : x.transfer disk = (x.finish (disk c.key), disk) := by
  have hout := h.out
  rw [ho] at hout
  unfold Buf.transfer Buf.finish
  split at hout
  · cases hout
  · next hx =>
    rw [if_neg hx, if_neg hx, h.key, Bool.eq_false_iff.mpr hx]

lemma Means.goto {p : ι} (hp : s.pc p = k₀) (hpc : s'.pc = update s.pc p k)
    (hk : k.stage = k₀.stage ∨ k.stage = none) (hbuf : s'.buf = s.buf) (hdisk : s'.disk = s.disk)
    (hport : s'.port = s.port) (hdone : s'.done ↔ s.done) (ha : ∀ q d, a ≠ .iderw q d) : Means s a s' L .other := by
  refine .other hdone hdisk hport fun q z hz => .inr ⟨?_, by rw [hbuf], ha q⟩
  rw [hpc] at hz
  by_cases hq : q = p
  · rw [hq, update_self] at hz
    rw [hq, hp]
    rcases hk with hk | hk
    · exact hk ▸ hz
    · rw [hk] at hz
      cases hz
  · rw [update_of_ne hq] at hz
    exact hz

lemma Ok.start_done (h : Ok s L) (hst : (s.pc p).starts L)
    (hs' : s'.cmd = some (s.buf b).cmd) : s'.done ↔ s.done := by
  constructor
  · intro hd
    exact absurd hd (not_done_of_cmd hs' rfl)
  · rintro ⟨c, hc, -⟩
    exact absurd hst ((h.busy c hc).1 p)

lemma Move.means (h : Ok s L) (hm : Move s a e s') : Means s a s' L e := by
  cases hm with
  | lock | unlock => exact .other Iff.rfl rfl rfl fun q z hz => .inr ⟨hz, rfl, nofun⟩
  | @edit p b x hp ho =>
    refine .other Iff.rfl rfl rfl fun q z hz => .inr ⟨hz, ?_, nofun⟩
    apply update_of_ne
    -- an idle process owns the buffer
    rintro rfl
    have h1 := h.owner_of_stage hz
    rw [ho] at h1
    cases h1
    rw [hp] at hz
    cases hz
  | @iderw p b hp ho hc =>
    refine .other Iff.rfl rfl rfl fun q z hz => ?_
    have hz : (update s.pc p (.enter b) q).stage = some z := hz
    by_cases hq : q = p
    · rw [hq, update_self] at hz
      cases hz
      rw [hq]
      exact .inl ⟨rfl, rfl, hc, rfl⟩
    · rw [update_of_ne hq] at hz
      refine .inr ⟨hz, rfl, fun d hd => ?_⟩
      cases hd
      exact hq rfl
  | enter hp | append hp | walk hp | queued hp | found hp | sleep hp | back hp | handle hp | empty hp
  | last hp | quit hp | intr hp | kill hp =>
    exact Means.goto hp rfl (.inl rfl) rfl rfl rfl Iff.rfl nofun
  | leave hp => exact Means.goto hp rfl (.inr rfl) rfl rfl rfl Iff.rfl nofun
  | @start p b hp hq =>
    have hst : (s.pc p).starts L := by
      rw [hp]
      exact h.chain.head.symm.trans hq
    exact Means.goto hp rfl (.inl rfl) rfl rfl rfl (h.start_done hst rfl) nofun
  | @next p b hp =>
    have hst : (s.pc p).starts L := by
      rw [hp]
      trivial
    exact Means.goto hp rfl (.inl rfl) rfl rfl rfl (h.start_done hst rfl) nofun
  | @link p b pp hp =>
    have hpc : ((s.link b pp).goto p (.start b)).pc = update s.pc p (.start b) := by
      cases pp <;> rfl
    refine .submit rfl (by rw [hp]; rfl) ?_ (fun q hq => ?_) ?_ ?_ ?_ ?_
    · rw [hpc, update_self]
      rfl
    · rw [hpc, update_of_ne hq]
    all_goals cases pp <;> rfl
  | @pop p b hp hq =>
    obtain ⟨hd, -⟩ := h.handler p (by rw [hp]; rfl)
    obtain ⟨L', rfl, -⟩ := Chain.pop (hq ▸ h.chain)
    exact .complete rfl hd nofun (stage_update hp rfl) rfl rfl
  | @wake p b =>
    refine .other Iff.rfl rfl rfl fun q z hz => .inr ⟨?_, rfl, nofun⟩
    have hz : (update (fun q => (s.pc q).rouse b) p .next q).stage = some z := hz
    by_cases hq : q = p
    · rw [hq, update_self] at hz
      cases hz
    · rw [update_of_ne hq, rouse_stage] at hz
      exact hz
  | @write c d hc hd ho =>
    obtain ⟨b, L', rfl, hf⟩ := h.cmd_cons hc
    rw [event_serve h.idequeue]
    exact .serve rfl (not_done_of_cmd hc hd) ⟨_, rfl, rfl⟩ rfl rfl (hf.transfer_write ho)
  | @read c hc hd ho =>
    obtain ⟨b, L', rfl, hf⟩ := h.cmd_cons hc
    rw [event_serve h.idequeue]
    exact .serve rfl (not_done_of_cmd hc hd) ⟨_, rfl, rfl⟩ rfl rfl (hf.transfer_read ho)
  | miss => exact .other Iff.rfl rfl rfl fun q z hz => .inr ⟨hz, rfl, nofun⟩

theorem Books.step (h : Ok s L) (hb : Books tr s L) (hm : Means s a s' L e) (he : event s a = e) :
    Books (tr ++ [(s, a)]) s' (e.queue L) := by
  have h1 : Ide.submitted (tr ++ [(s, a)]) = Ide.submitted tr ++ e.submitted.toList := by
    unfold Ide.submitted
    rw [filterMap_concat, he]
  have h2 : Ide.served (tr ++ [(s, a)]) = Ide.served tr ++ e.served.toList := by
    unfold Ide.served
    rw [filterMap_concat, he]
  have h3 : completed (tr ++ [(s, a)]) = completed tr ++ e.completed.toList := by
    unfold completed
    rw [filterMap_concat, he]
  cases hm with
  | other hd =>
    simp only [Event.submitted, Event.served, Event.completed, toList_none, append_nil] at h1 h2 h3
    refine ⟨?_, fun hx => ?_, fun hx => ?_⟩
    · rw [h1, h3]
      exact hb.submitted
    · rw [h2, h3]
      exact hb.due (hd.mp hx)
    · rw [h2, h3]
      exact hb.fresh fun hy => hx (hd.mpr hy)
  | @submit _ p b _ _ _ _ _ _ _ hcmd =>
    simp only [Event.submitted, Event.served, Event.completed, toList_none, toList_some, append_nil] at h1 h2 h3
    have hd : s'.done ↔ s.done := by
      unfold State.done
      rw [hcmd]
    refine ⟨?_, fun hx => ?_, fun hx => ?_⟩
    · rw [h1, h3, hb.submitted, append_assoc]
      rfl
    · obtain ⟨c, L', rfl⟩ := h.done_cons (hd.mp hx)
      rw [h2, h3]
      exact hb.due (hd.mp hx)
    · rw [h2, h3]
      exact hb.fresh fun hy => hx (hd.mpr hy)
  | @serve L' b _ hd hd' =>
    simp only [Event.submitted, Event.served, Event.completed, toList_none, toList_some, append_nil] at h1 h2 h3
    refine ⟨?_, fun _ => ?_, fun hx => absurd hd' hx⟩
    · rw [h1, h3]
      exact hb.submitted
    · rw [h2, h3, hb.fresh hd]
      rfl
  | @complete L' p b _ hd hd' =>
    simp only [Event.submitted, Event.served, Event.completed, toList_none, toList_some, append_nil] at h1 h2 h3
    refine ⟨?_, fun hx => absurd hx hd', fun _ => ?_⟩
    · rw [h1, h3, hb.submitted, append_assoc]
      rfl
    · rw [h2, h3, hb.due hd]
      rfl

/-! ## the moment of a call -/

/-- nothing was written to the sector. -/
def Unwritten (tr : Trace ι β δ) (k : Key) : Prop :=
  ∀ e ∈ tr, ∀ c, event e.1 e.2 = .serve c → (e.1.buf c).dirty = true → (e.1.buf c).key ≠ k

/-- no call of `p` begins in these steps. -/
def NoCall (tr : Trace ι β δ) (p : ι) : Prop := ∀ e ∈ tr, ∀ c, e.2 ≠ .iderw p c

/-- `p` has called `iderw b`, and the buffer is as it was then. -/
def Asked (tr : Trace ι β δ) (s : State ι β δ) (p : ι) (b : β) : Prop :=
  ∃ tr₀ v tr₁, tr = tr₀ ++ (v, .iderw p b) :: tr₁ ∧ NoCall tr₁ p ∧ (v.buf b).clean = false ∧ s.buf b = v.buf b

/-- `p` has called `iderw b`, with the buffer `x`, and since then the disk has executed the command, in a
step from `u` to `u'`; `y` is what `p` gets. -/
def Got (tr : Trace ι β δ) (s : State ι β δ) (p : ι) (b : β) (y : Buf δ) : Prop :=
  ∃ tr₀ v tr₁ u u' tr₂, tr = tr₀ ++ (v, .iderw p b) :: (tr₁ ++ (u, .disk) :: tr₂) ∧
    NoCall (tr₁ ++ (u, .disk) :: tr₂) p ∧ (v.buf b).clean = false ∧ step u .disk = .ok u' ∧
    (v.buf b).transfer u.disk = (y, u'.disk) ∧ (Unwritten tr₂ y.key → s.disk y.key = y.data)

lemma NoCall.concat (h : NoCall tr p) (ha : ∀ c, a ≠ .iderw p c) : NoCall (tr ++ [(s, a)]) p := by
  intro e he c
  rcases mem_append.mp he with he | he
  · exact h e he c
  · rw [mem_singleton.mp he]
    exact ha c

lemma Asked.concat (h : Asked tr s p b) (ha : ∀ c, a ≠ .iderw p c) (hb : s'.buf b = s.buf b) :
    Asked (tr ++ [(s, a)]) s' p b := by
  obtain ⟨tr0, v, tr1, rfl, h1, h2, h3⟩ := h
  refine ⟨tr0, v, tr1 ++ [(s, a)], ?_, h1.concat ha, h2, hb.trans h3⟩
  rw [append_assoc]
  rfl

/-- another step leaves the sector alone, unless the disk writes to it. -/
theorem Got.concat (h : Got tr s p b y) (ha : ∀ c, a ≠ .iderw p c)
    (hd : (∀ c, event s a = .serve c → (s.buf c).dirty = true → (s.buf c).key ≠ y.key) →
      s'.disk y.key = s.disk y.key) : Got (tr ++ [(s, a)]) s' p b y := by
  obtain ⟨tr0, v, tr1, u, u', tr2, rfl, h1, h2, h3, h4, h5⟩ := h
  refine ⟨tr0, v, tr1, u, u', tr2 ++ [(s, a)], ?_, ?_, h2, h3, h4, fun hw => ?_⟩
  · simp only [append_assoc, cons_append]
  · have h6 := h1.concat (s := s) ha
    rw [append_assoc] at h6
    exact h6
  · rw [hd fun c hc => hw (s, a) (mem_append_right _ (mem_singleton_self _)) c hc]
    exact h5 fun e he => hw e (mem_append_left _ he)

/-- the moment of the call: the disk executes its command. -/
theorem Asked.got (h : Asked tr s p b) (hs : step s .disk = .ok s')
    (he : (s.buf b).transfer s.disk = (y, s'.disk)) : Got (tr ++ [(s, .disk)]) s' p b y := by
  obtain ⟨tr0, v, tr1, rfl, h1, h2, h3⟩ := h
  have hkey : y.key = (s.buf b).key := by
    have h4 := transfer_key (s.buf b) s.disk
    rw [he] at h4
    exact h4
  have hdata : s'.disk y.key = y.data := by
    have h4 := transfer_data (s.buf b) s.disk
    rw [he] at h4
    rw [hkey]
    exact h4
  refine ⟨tr0, v, tr1, s, s', [], ?_, h1.concat nofun, h2, hs, h3 ▸ he, fun _ => hdata⟩
  rw [append_assoc]
  rfl

/-- what is known of the calls that have not returned. -/
structure Tells (tr : Trace ι β δ) (s : State ι β δ) (L : List β) : Prop where
  early : ∀ p b, (s.pc p).stage = some (false, b) → Asked tr s p b
  queued : ∀ p b, (s.pc p).stage = some (true, b) → b ∈ L → ¬ (L.head? = some b ∧ s.done) → Asked tr s p b
  due : ∀ p b, (s.pc p).stage = some (true, b) → L.head? = some b → s.done → Got tr s p b ((s.buf b).finish s.port)
  out : ∀ p b, (s.pc p).stage = some (true, b) → b ∉ L → Got tr s p b (s.buf b)

theorem Tells.step (h : Ok s L) (ht : Tells tr s L) (hs : step s a = .ok s') (hm : Means s a s' L e)
    (he : event s a = e) : Tells (tr ++ [(s, a)]) s' (e.queue L) := by
  cases hm with
  | other hdone hdisk hport hst =>
    have keep : ∀ {p b}, (s'.pc p).stage = some (true, b) →
        (s.pc p).stage = some (true, b) ∧ s'.buf b = s.buf b ∧ ∀ d, a ≠ .iderw p d := by
      intro p b hp
      rcases hst p _ hp with ⟨-, hx, -⟩ | hx
      · cases hx
      · exact hx
    refine ⟨fun p b hp => ?_, fun p b hp hb hx => ?_, fun p b hp hb hd => ?_, fun p b hp hb => ?_⟩
    · rcases hst p _ hp with ⟨rfl, -, hc, hbuf⟩ | ⟨h1, h2, h3⟩
      · exact ⟨tr, s, [], rfl, nofun, hc, congrFun hbuf b⟩
      · exact (ht.early p b h1).concat h3 h2
    · obtain ⟨h1, h2, h3⟩ := keep hp
      rw [hdone] at hx
      exact (ht.queued p b h1 hb hx).concat h3 h2
    · obtain ⟨h1, h2, h3⟩ := keep hp
      rw [h2, hport]
      exact (ht.due p b h1 hb (hdone.mp hd)).concat h3 fun _ => by rw [hdisk]
    · obtain ⟨h1, h2, h3⟩ := keep hp
      rw [h2]
      exact (ht.out p b h1 hb).concat h3 fun _ => by rw [hdisk]
  | @submit _ p0 b0 ha hp0 hp0' hothers hbuf hdisk hport hcmd =>
    subst ha
    have hb0 : b0 ∉ L := h.not_mem_of_stage hp0
    have hmem : ∀ c, c ∈ L ++ [b0] ↔ c ∈ L ∨ c = b0 := fun c => by
      rw [mem_append, mem_singleton]
    have hdone : s'.done ↔ s.done := by
      unfold State.done
      rw [hcmd]
    -- another process is at the same place, and has another buffer
    have other : ∀ {p z}, p ≠ p0 → (s'.pc p).stage = some z → (s.pc p).stage = some z ∧ z.2 ≠ b0 := by
      intro p z hp hz
      rw [hothers p hp] at hz
      refine ⟨hz, fun hx => ?_⟩
      have h1 := h.owner_of_stage hz
      rw [hx, h.owner_of_stage hp0] at h1
      exact hp (some.inj h1).symm
    have self : ∀ {z b}, (s'.pc p0).stage = some (z, b) → z = true ∧ b = b0 := by
      intro z b hz
      rw [hp0'] at hz
      cases hz
      exact ⟨rfl, rfl⟩
    refine ⟨fun p b hp => ?_, fun p b hp hb hx => ?_, fun p b hp hb hd => ?_, fun p b hp hb => ?_⟩
    · by_cases hpp : p = p0
      · rw [hpp] at hp
        cases (self hp).1
      · exact (ht.early p b (other hpp hp).1).concat nofun (by rw [hbuf])
    · by_cases hpp : p = p0
      · rw [hpp] at hp ⊢
        rw [(self hp).2]
        exact (ht.early p0 b0 hp0).concat nofun (by rw [hbuf])
      · obtain ⟨h1, h2⟩ := other hpp hp
        have hbL : b ∈ L := ((hmem b).mp hb).resolve_right h2
        refine (ht.queued p b h1 hbL fun hy => hx ⟨?_, hdone.mpr hy.2⟩).concat nofun (by rw [hbuf])
        rw [Event.queue, head?_append, hy.1]
        rfl
    · obtain ⟨c, L', rfl⟩ := h.done_cons (hdone.mp hd)
      have hcb : c = b := some.inj hb
      have hpp : p ≠ p0 := by
        rintro rfl
        exact hb0 ((self hp).2 ▸ hcb ▸ mem_cons_self)
      rw [hbuf, hport]
      exact (ht.due p b (other hpp hp).1 hb (hdone.mp hd)).concat nofun fun _ => by rw [hdisk]
    · obtain ⟨hbL, hbb⟩ := not_or.mp (fun hx => hb ((hmem b).mpr hx))
      have hpp : p ≠ p0 := by
        rintro rfl
        exact hbb (self hp).2
      rw [hbuf]
      exact (ht.out p b (other hpp hp).1 hbL).concat nofun fun _ => by rw [hdisk]
  | @serve L' b0 ha hd hd' hpc hbuf heff =>
    subst ha
    refine ⟨fun p b hp => ?_, fun p b hp hb hx => ?_, fun p b hp hb _ => ?_, fun p b hp hb => ?_⟩
    all_goals rw [hpc] at hp
    · exact (ht.early p b hp).concat nofun (by rw [hbuf])
    · exact (ht.queued p b hp hb fun hy => hx ⟨hy.1, hd'⟩).concat nofun (by rw [hbuf])
    · obtain rfl : b0 = b := some.inj hb
      rw [hbuf]
      exact (ht.queued p b0 hp mem_cons_self fun hy => hd hy.2).got hs heff
    · rw [hbuf]
      refine (ht.out p b hp hb).concat nofun fun hw => ?_
      have h1 := transfer_other s.disk (hw b0 he)
      rw [heff] at h1
      exact h1
  | @complete L' p0 b0 ha hd hd' hst hbuf hdisk =>
    subst ha
    obtain ⟨hb0, -⟩ := nodup_cons.mp h.nodup
    have hne : ∀ {b}, b ≠ b0 → s'.buf b = s.buf b := fun hb => by
      rw [hbuf, update_of_ne hb]
    refine ⟨fun p b hp => ?_, fun p b hp hb hx => ?_, fun p b hp hb hd => absurd hd hd', fun p b hp hb => ?_⟩
    all_goals rw [hst] at hp
    · have hb : b ≠ b0 := by
        rintro rfl
        exact h.not_mem_of_stage hp mem_cons_self
      exact (ht.early p b hp).concat nofun (hne hb)
    · have hbb : b ≠ b0 := by
        rintro rfl
        exact hb0 hb
      refine (ht.queued p b hp (mem_cons_of_mem _ hb) fun hy => ?_).concat nofun (hne hbb)
      exact hbb (some.inj hy.1).symm
    · by_cases hbb : b = b0
      · subst hbb
        rw [hbuf, update_self]
        exact (ht.due p b hp rfl hd).concat nofun fun _ => by rw [hdisk]
      · rw [hne hbb]
        have hbL : b ∉ b0 :: L' := fun hx => hb ((mem_cons.mp hx).resolve_left hbb)
        exact (ht.out p b hp hbL).concat nofun fun _ => by rw [hdisk]

/-! ## the driver serves its requests once, in order -/

section
variable {buf : β → Buf δ} {havedisk1 : Bool} {disk : Key → δ} {port : δ}

lemma Ok.boot : Ok (State.boot buf havedisk1 disk port : State ι β δ) [] := by
  refine ⟨rfl, nodup_nil, nofun, nofun, fun q => ?_, fun _ => trivial, fun _ => .inl rfl, nofun, nofun,
    nofun, ?_⟩
  · exact ⟨nofun, nofun⟩
  · rintro ⟨c, hc, -⟩
    cases hc

lemma run_ok (h : Path step (State.boot buf havedisk1 disk port : State ι β δ) tr s) :
    ∃ L, Ok s L ∧ Books tr s L ∧ Tells tr s L := by
  refine h.history (fun tr s => ∃ L, Ok s L ∧ Books tr s L ∧ Tells tr s L) ?_ ?_
  · refine ⟨[], Ok.boot, ⟨rfl, ?_, fun _ => rfl⟩, ⟨nofun, nofun, nofun, nofun⟩⟩
    rintro ⟨c, hc, -⟩
    cases hc
  · rintro tr u a u' - ⟨L, h1, h2, h3⟩ hs
    have hm := (step_move hs).means h1
    exact ⟨_, h1.step (step_move hs), h2.step h1 hm rfl, h3.step h1 hs hm rfl⟩

/-- The disk queue serves every request once, in order. At every moment of a run the queue lists the
buffers that were submitted and are not completed; the disk has the command of its first one, and when it
has executed it the interrupt is on its way; nobody sleeps for a buffer that is not in the queue; and
`iderw` returns with the effect that its request has on the disk. -/
theorem disk_queue_in_order (h : Path step (State.boot buf havedisk1 disk port : State ι β δ) tr s) :
    ∃ L, Chain s.qnext s.idequeue L ∧ L.Nodup ∧ submitted tr = completed tr ++ L ∧
      (s.lock = none → L ≠ [] → s.cmd ≠ none) ∧
      (∀ c, s.cmd = some c → ∃ b, L.head? = some b ∧ c.key = (s.buf b).key ∧ c.out = (s.buf b).cmd.out) ∧
      (s.done → served tr = completed tr ++ L.take 1 ∧ (s.irq = true ∨ ∃ p, (s.pc p).handles = true)) ∧
      (¬ s.done → served tr = completed tr) ∧
      (s.lock = none → ∀ p b, s.pc p = .asleep b → b ∈ L) ∧
      ∀ p b, s.pc p = .leave b → (s.buf b).valid = true ∧ (s.buf b).dirty = false ∧
        ∃ tr₀ v tr₁ u u' tr₂, tr = tr₀ ++ (v, .iderw p b) :: (tr₁ ++ (u, .disk) :: tr₂) ∧
          NoCall (tr₁ ++ (u, .disk) :: tr₂) p ∧ step u .disk = .ok u' ∧
          (v.buf b).transfer u.disk = (s.buf b, u'.disk) ∧ u'.disk (s.buf b).key = (s.buf b).data ∧
          (Unwritten tr₂ (s.buf b).key → s.disk (s.buf b).key = (s.buf b).data) ∧
          ∀ disksize, (v.buf b).dev = 1 → (v.buf b).blockno < disksize →
            memiderw disksize (v.buf b) (fun n => u.disk (1, n)) = .ok (s.buf b, fun n => u'.disk (1, n)) := by
  obtain ⟨L, h1, h2, h3⟩ := run_ok h
  refine ⟨L, h1.chain, h1.nodup, h2.submitted, fun hl hL hc => ?_, fun c hc => ?_,
    fun hd => ⟨h2.due hd, h1.told hd⟩, h2.fresh, fun hl p b hp => ?_, fun p b hp => ?_⟩
  · obtain ⟨q, hq⟩ := (h1.idle hc).resolve_left hL
    exact absurd (Pc.holds_of_starts hq) (by rw [h1.locked.free hl q]; decide)
  · obtain ⟨-, b, hb, hf⟩ := h1.busy c hc
    exact ⟨b, hb, hf.key, hf.out⟩
  · by_contra hb
    have hf := h1.fits p
    rw [hp] at hf
    obtain ⟨q, hq⟩ := (hf.2 hb).2
    have h4 := h1.locked.free hl q
    rw [hq] at h4
    cases h4
  · have hf := h1.fits p
    rw [hp] at hf
    obtain ⟨-, hb, hc⟩ := hf
    obtain ⟨tr₀, v, tr₁, u, u', tr₂, h4, h5, h6, h7, h8, h9⟩ := h3.out p b (by rw [hp]; rfl) hb
    have hclean : (s.buf b).valid = true ∧ (s.buf b).dirty = false := by simpa [Buf.clean] using hc
    refine ⟨hclean.1, hclean.2, tr₀, v, tr₁, u, u', tr₂, h4, h5, h7, h8, ?_, h9, fun n hdev hn => ?_⟩
    · have h10 := transfer_data (v.buf b) u.disk
      rw [← transfer_key (v.buf b) u.disk, h8] at h10
      exact h10
    · rw [memiderw_eq h6 hdev hn, h8]

end

/-- one process reads block 3 and another one writes block 4, of the second disk; when the first one
returns, the command of the second one has been started. -/
theorem disk_queue_in_order_two : ∃ tr s,
    Path step (State.boot (fun _ => ⟨false, false, 0, 0, 0⟩) true (fun k => 10 * k.1 + k.2) 0 :
      State (Option Bool) Bool Nat) tr s ∧
      s.pc (some false) = .leave false ∧ (s.buf false).data = 13 ∧ submitted tr = [false, true] ∧
      ∃ L, completed tr ++ L = [false, true] ∧ L.Nodup := by
  obtain ⟨tr, s, h, hpc, hdata, hsub⟩ : ∃ tr s,
      Path step (State.boot (fun _ => ⟨false, false, 0, 0, 0⟩) true (fun k => 10 * k.1 + k.2) 0 :
        State (Option Bool) Bool Nat) tr s ∧ s.pc (some false) = .leave false ∧
      (s.buf false).data = 13 ∧ submitted tr = [false, true] := Path.of_labels
    ([.lock (some false) false, .edit (some false) false ⟨false, false, 1, 3, 0⟩, .iderw (some false) false,
      .lock (some true) true, .edit (some true) true ⟨true, true, 1, 4, 9⟩, .iderw (some true) true] ++
      replicate 5 (.step (some false)) ++ replicate 6 (.step (some true)) ++
      [.disk, .intr none] ++ replicate 5 (.step none) ++ replicate 2 (.step (some false)))
    (by decide +kernel)
  obtain ⟨L, -, hL, hall, -⟩ := disk_queue_in_order h
  exact ⟨tr, s, h, hpc, hdata, hsub, L, hall.symm.trans hsub, hL⟩

/-! ## the driver is never stuck -/

lemma idestart_starts (h : Ok s L) (hb : (s.buf b).blockno < FSSIZE) (hp : (s.pc p).starts L) :
    ∃ s', idestart (s.goto p k) b = .ok s' := by
  have hc : Cmd.busy s.cmd = false := by
    cases hc : s.cmd with
    | none => rfl
    | some c => exact absurd hp ((h.busy c hc).1 p)
  exact ⟨_, (if_neg (Nat.not_le.mpr hb)).trans (if_neg (Bool.eq_false_iff.mp hc))⟩

/-- who holds the lock can go on. -/
theorem holder_turns (h : Ok s L) (hb : ∀ b, (s.buf b).blockno < FSSIZE) (hp : (s.pc p).holds = true) :
    ∃ s', turn s p = .ok s' := by
  unfold turn
  cases e : s.pc p with
  | append | wake | leave | quit => exact ⟨_, rfl⟩
  | walk | wait | pop =>
    dsimp only
    split <;> exact ⟨_, rfl⟩
  | start b =>
    dsimp only
    split
    · next hq =>
      apply idestart_starts h (hb b)
      rw [e]
      exact h.chain.head.symm.trans hq
    · exact ⟨_, rfl⟩
  | next =>
    dsimp only
    split
    · exact ⟨_, rfl⟩
    · apply idestart_starts h (hb _)
      rw [e]
      trivial
  | _ => rw [e] at hp; cases hp

/-- with a buffer in the queue and the lock free, the disk has a command, or its interrupt is on the way. -/
theorem disk_goes (h : Ok s L) (hl : s.lock = none) (hL : L ≠ []) :
    (∃ s', serve s = .ok s') ∨ s.irq = true ∨ ∃ r, s.pc r = .intr := by
  cases hc : s.cmd with
  | none =>
    obtain ⟨r, hr⟩ := (h.idle hc).resolve_left hL
    cases (h.locked.free hl r).symm.trans (Pc.holds_of_starts hr)
  | some c =>
    cases hd : c.done with
    | false =>
      left
      unfold serve
      rw [hc]
      dsimp only
      rw [hd]
      cases c.out <;> exact ⟨_, rfl⟩
    | true =>
      right
      apply (h.told ⟨c, hc, hd⟩).imp_right
      rintro ⟨r, hr⟩
      have hf := h.locked.free hl r
      cases e : s.pc r with
      | intr => exact ⟨r, e⟩
      | pop => rw [e] at hf; cases hf
      | _ => rw [e] at hr; cases hr

/-- **The driver is never stuck**: while a call is under way and a context is free to take the disk's interrupt, some
call, the disk or its interrupt can go on. -/
theorem driver_never_stuck {buf : β → Buf δ} {havedisk1 : Bool} {disk : Key → δ} {port : δ}
    (h : Path step (State.boot buf havedisk1 disk port : State ι β δ) tr s)
    (hb : ∀ b, (s.buf b).blockno < FSSIZE) (hp : s.pc p ≠ .idle) (hq : s.pc q = .idle) :
    ∃ a s', step s a = .ok s' ∧ (a = .disk ∨ a = .intr q ∨ ∃ r, a = .step r) := by
  obtain ⟨L, hok, -⟩ := run_ok h
  have go : ∀ r, (∃ s', turn s r = .ok s') →
      ∃ a s', step s a = .ok s' ∧ (a = .disk ∨ a = .intr q ∨ ∃ r, a = .step r) :=
    fun r hr => ⟨.step r, hr.choose, hr.choose_spec, .inr (.inr ⟨r, rfl⟩)⟩
  cases hl : s.lock with
  | some r => exact go r (holder_turns hok hb ((hok.locked r).mp hl))
  | none =>
    have hfree : ∀ {r k}, s.pc r = k → k.holds = false := fun {r _} e => e ▸ hok.locked.free hl r
    cases e : s.pc p with
    | idle => exact absurd e hp
    | enter | ready | intr =>
      apply go p
      unfold turn
      rw [e]
      exact ⟨_, if_pos hl⟩
    | asleep b =>
      have hf := hok.fits p
      rw [e] at hf
      have hbL : b ∈ L := by
        by_contra hbL
        obtain ⟨r, hr⟩ := (hf.2 hbL).2
        cases hfree hr
      rcases disk_goes hok hl (ne_nil_of_mem hbL) with ⟨s', hs⟩ | hi | ⟨r, hr⟩
      · exact ⟨.disk, s', hs, .inl rfl⟩
      · exact ⟨.intr q, _, if_pos ⟨hq, hi⟩, .inr (.inl rfl)⟩
      · apply go r
        unfold turn
        rw [hr]
        exact ⟨_, if_pos hl⟩
    | _ => cases hfree e

/-- a process sleeps until its buffer is read. -/
theorem driver_never_stuck_asleep : ∃ tr s,
    Path step (State.boot (fun _ => ⟨false, false, 0, 3, 0⟩) true (fun _ => 0) 0 : State Bool Unit Nat) tr s ∧
      s.pc true = .asleep () ∧ ∃ a s', step s a = .ok s' ∧ (a = .disk ∨ a = .intr false ∨ ∃ r, a = .step r) := by
  obtain ⟨tr, s, h, hpc, hidle, hn⟩ : ∃ tr s,
      Path step (State.boot (fun _ => ⟨false, false, 0, 3, 0⟩) true (fun _ => 0) 0 : State Bool Unit Nat) tr s ∧
      s.pc true = .asleep () ∧ s.pc false = .idle ∧ (s.buf ()).blockno < FSSIZE :=
    Path.of_labels ([.lock true (), .iderw true ()] ++ replicate 5 (.step true)) (by decide +kernel)
  exact ⟨tr, s, h, hpc, driver_never_stuck h (fun _ => hn) (by rw [hpc]; exact nofun) hidle⟩

end Xv6.Ide
