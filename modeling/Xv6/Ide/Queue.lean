import Xv6.Ide.Machine
import Xv6.Lib.Chain
import Xv6.Lib.Mutex
import Xv6.Lib.History

/-!
# The queue of the disk driver

`Ok s L`: the list that starts at `idequeue` is `L`, and

* a buffer of `L` waits to be read or written, and one process is in `iderw` for it;
* the command that the disk has is the one for the head of `L`, and there is one unless `L` is empty or
  the holder of `idelock` is about to give it (`Pc.starts`);
* when the disk has executed it, one interrupt is on its way: nobody has taken it yet, or one
  handler is before the place where it takes the head of the queue (`Pc.handles`).
-/

set_option linter.unusedSectionVars false

namespace Xv6.Ide
open Lib Function List Bool Option

variable {ι β δ : Type} [DecidableEq ι] [DecidableEq β] {s s' t : State ι β δ} {L L' : List β}
  {p q : ι} {b c : β} {k k₀ : Pc β} {x : Buf δ} {disk : Key → δ} {c : Cmd δ} {port : δ} {f : ι → Pc β} {l : Option ι}

namespace Pc

/-- where a context holds `idelock`. -/
def holds : Pc β → Bool
  | .append _ | .walk _ _ | .start _ | .wait _ | .leave _ | .pop | .wake _ | .next | .quit => true
  | _ => false

/-- the buffer that a process has put into the queue, and waits for. -/
def queued : Pc β → Option β
  | .start b | .wait b | .asleep b | .ready b => some b
  | _ => none

/-- an interrupt that is being handled, before the head of the queue is taken. -/
def handles : Pc β → Bool
  | .intr | .pop => true
  | _ => false

/-- the command for the head of the queue comes next. -/
def starts (L : List β) : Pc β → Prop
  | .wake _ | .next => True
  | .start b => L.head? = some b
  | _ => False

end Pc

/-- what is known of the buffer of a process, by the place where it is. -/
def Fits (s : State ι β δ) (L : List β) (p : ι) : Pc β → Prop
  | .idle | .intr | .pop | .wake _ | .next | .quit => True
  | .enter b | .append b => s.owner b = some p ∧ b ∉ L ∧ (s.buf b).clean = false
  | .walk b pp => s.owner b = some p ∧ b ∉ L ∧ (s.buf b).clean = false ∧ s.qnext b = none ∧
      ∀ c, pp = some c → c ∈ L
  | .start b => s.owner b = some p ∧ b ∈ L
  | .wait b | .ready b => s.owner b = some p ∧ (b ∉ L → (s.buf b).clean = true)
  | .asleep b => s.owner b = some p ∧ (b ∉ L → (s.buf b).clean = true ∧ ∃ q, s.pc q = .wake b)
  | .leave b => s.owner b = some p ∧ b ∉ L ∧ (s.buf b).clean = true

/-- the command is the one for the buffer, and if it was executed, the disk and the data port are as
the buffer asked. -/
structure Cmd.For (c : Cmd δ) (x : Buf δ) (disk : Key → δ) (port : δ) : Prop where
  key : c.key = x.key
  out : c.out = if x.dirty then some x.data else none
  wrote : c.done = true → x.dirty = true → disk x.key = x.data
  read : c.done = true → x.dirty = false → port = disk x.key

/-- the disk has executed its command. -/
def State.done (s : State ι β δ) : Prop := ∃ c, s.cmd = some c ∧ c.done = true

structure Ok (s : State ι β δ) (L : List β) : Prop where
  chain : Chain s.qnext s.idequeue L
  nodup : L.Nodup
  todo : ∀ b ∈ L, (s.buf b).clean = false
  queued : ∀ b ∈ L, ∃ p, (s.pc p).queued = some b
  locked : Mutex s.lock Pc.holds s.pc
  fits : ∀ p, Fits s L p (s.pc p)
  idle : s.cmd = none → L = [] ∨ ∃ p, (s.pc p).starts L
  busy : ∀ c, s.cmd = some c → (∀ p, ¬ (s.pc p).starts L) ∧ ∃ b, L.head? = some b ∧ c.For (s.buf b) s.disk s.port
  irq : s.irq = true → s.done ∧ ∀ p, (s.pc p).handles = false
  handler : ∀ p, (s.pc p).handles = true → s.done ∧ s.irq = false ∧ ∀ q, (s.pc q).handles = true → q = p
  told : s.done → s.irq = true ∨ ∃ p, (s.pc p).handles = true

/-! ## what a step leaves of the others -/

/-- the place of a process that does not move: its buffer stays its own; outside of the queue it is
not touched; and if it leaves the queue, it is clean. -/
theorem Fits.frame (h : Fits s L q k) (ho : ∀ b, s.owner b = some q → s'.owner b = some q)
    (hout : ∀ b, s.owner b = some q → b ∉ L → b ∉ L' ∧ s'.buf b = s.buf b)
    (hin : ∀ b, s.owner b = some q → b ∈ L → b ∉ L' → (s'.buf b).clean = true ∧ ∃ r, s'.pc r = .wake b)
    (hw : ∀ b r, k = .asleep b → s.pc r = .wake b → ∃ r', s'.pc r' = .wake b)
    (hk : k.holds = true → L' = L ∧ s'.qnext = s.qnext) : Fits s' L' q k := by
  -- a buffer that is clean outside of the queue
  have stays : ∀ b, s.owner b = some q → (b ∉ L → (s.buf b).clean = true) → b ∉ L' → (s'.buf b).clean = true := by
    intro b hb hc hb'
    by_cases hbL : b ∈ L
    · exact (hin b hb hbL hb').1
    · rw [(hout b hb hbL).2]
      exact hc hbL
  cases k with
  | idle | intr | pop | wake | next | quit => trivial
  | enter b | append b | leave b =>
    obtain ⟨h1, h2, h3⟩ := h
    obtain ⟨h4, h5⟩ := hout b h1 h2
    exact ⟨ho b h1, h4, by rw [h5]; exact h3⟩
  | walk b =>
    obtain ⟨h1, h2, h3, h4, h5⟩ := h
    obtain ⟨h6, h7⟩ := hout b h1 h2
    obtain ⟨hL, hn⟩ := hk rfl
    refine ⟨ho b h1, h6, by rw [h7]; exact h3, by rw [hn]; exact h4, ?_⟩
    rw [hL]
    exact h5
  | start b =>
    obtain ⟨hL, -⟩ := hk rfl
    exact ⟨ho b h.1, by rw [hL]; exact h.2⟩
  | wait b | ready b => exact ⟨ho b h.1, stays b h.1 h.2⟩
  | asleep b =>
    refine ⟨ho b h.1, fun hb' => ⟨stays b h.1 (fun hb => (h.2 hb).1) hb', ?_⟩⟩
    by_cases hbL : b ∈ L
    · exact (hin b h.1 hbL hb').2
    · obtain ⟨r, hr⟩ := (h.2 hbL).2
      exact hw b r rfl hr

lemma Fits.same (h : Fits s L q k) (ho : s'.owner = s.owner) (hb : s'.buf = s.buf)
    (hn : k.holds = true → s'.qnext = s.qnext)
    (hw : ∀ b r, k = .asleep b → s.pc r = .wake b → ∃ r', s'.pc r' = .wake b) : Fits s' L q k :=
  h.frame (fun b hq => by rw [ho]; exact hq) (fun b _ hL => ⟨hL, by rw [hb]⟩)
    (fun b _ hL hL' => absurd hL hL') hw fun hk => ⟨rfl, hn hk⟩

lemma Ok.others (h : Ok s L) (hp : (s.pc p).holds = true) (hq : q ≠ p) : (s.pc q).holds = false := by
  rw [← not_eq_true]
  exact fun hx => hq (h.locked.unique hx hp)

lemma Pc.holds_of_starts (h : k.starts L) : k.holds = true := by
  cases k with
  | start | wake | next => rfl
  | _ => exact h.elim

lemma Ok.not_starts (h : Ok s L) (hp : (s.pc p).holds = true) (hq : q ≠ p) : ¬ (s.pc q).starts L' := by
  intro hx
  have h1 := Pc.holds_of_starts hx
  rw [h.others hp hq] at h1
  cases h1

lemma pc_update {P : ι → Pc β → Prop} (hp : P p k) (hq : ∀ q, q ≠ p → P q (f q)) (q : ι) :
    P q (update f p k q) := Lib.pc_update hp hq q

lemma wake_update (hw : ∀ b, s.pc p ≠ .wake b) (b : β) (r : ι) (hr : s.pc r = .wake b) :
    ∃ r', update s.pc p k r' = .wake b := by
  have hrp : r ≠ p := by
    rintro rfl
    exact hw b hr
  exact ⟨r, by rw [update_of_ne hrp]; exact hr⟩

section
variable (h : Ok s L)
include h

lemma Ok.move (hl : Mutex l Pc.holds f)
    (hq : ∀ c ∈ L, ∀ q, (s.pc q).queued = some c → (f q).queued = some c)
    (hs : L ≠ [] → ∀ q, (f q).starts L ↔ (s.pc q).starts L) (hh : ∀ q, (f q).handles = (s.pc q).handles)
    (hf : ∀ q, Fits { s with pc := f, lock := l } L q (f q)) : Ok { s with pc := f, lock := l } L := by
  refine ⟨h.chain, h.nodup, h.todo, fun b hb => ?_, hl, hf, fun hc => ?_, fun c hc => ?_, fun hi => ?_,
    fun q hq => ?_, fun hd => ?_⟩
  · obtain ⟨q, hq'⟩ := h.queued b hb
    exact ⟨q, hq b hb q hq'⟩
  · by_cases hL : L = []
    · exact .inl hL
    · obtain ⟨q, h1⟩ := (h.idle hc).resolve_left hL
      exact .inr ⟨q, (hs hL q).mpr h1⟩
  · obtain ⟨h1, b, h2, h3⟩ := h.busy c hc
    have hL : L ≠ [] := by
      rintro rfl
      cases h2
    exact ⟨fun q hx => h1 q ((hs hL q).mp hx), b, h2, h3⟩
  · obtain ⟨h1, h2⟩ := h.irq hi
    exact ⟨h1, fun q => (hh q).trans (h2 q)⟩
  · obtain ⟨h1, h2, h3⟩ := h.handler q ((hh q).symm.trans hq)
    exact ⟨h1, h2, fun r hr => h3 r ((hh r).symm.trans hr)⟩
  · rcases h.told hd with h1 | ⟨q, h1⟩
    · exact .inl h1
    · exact .inr ⟨q, (hh q).trans h1⟩

lemma Ok.goto (hp : s.pc p = k₀) (hl : Mutex l Pc.holds (update s.pc p k))
    (hq : ∀ c ∈ L, k₀.queued = some c → k.queued = some c) (hs : L ≠ [] → (k.starts L ↔ k₀.starts L))
    (hh : k.handles = k₀.handles) (hw : ∀ b, k₀ ≠ .wake b) (hf : Fits { s.goto p k with lock := l } L p k) :
    Ok { s.goto p k with lock := l } L := by
  subst hp
  refine h.move hl (fun c hc => ?_) (fun hL => ?_) ?_ (pc_update hf fun q hqp => ?_)
  · exact pc_update (P := fun q k => (s.pc q).queued = some c → k.queued = some c) (hq c hc) fun _ _ hx => hx
  · exact pc_update (P := fun q k => k.starts L ↔ (s.pc q).starts L) (hs hL) fun _ _ => Iff.rfl
  · exact pc_update (P := fun q k => k.handles = (s.pc q).handles) hh fun _ _ => rfl
  · exact (h.fits q).same rfl rfl (fun _ => rfl) fun b r _ => wake_update hw b r

lemma Ok.owner_of_queued (hq : (s.pc q).queued = some b) : s.owner b = some q := by
  have hf := h.fits q
  cases hk : s.pc q with
  | start | wait | asleep | ready =>
    rw [hk] at hf hq
    cases hq
    exact hf.1
  | _ =>
    rw [hk] at hq
    cases hq

lemma Ok.not_mem (hp : s.pc p = .idle) (ho : s.owner b = some p ∨ s.owner b = none) : b ∉ L := by
  intro hb
  obtain ⟨q, hq⟩ := h.queued b hb
  have h1 := h.owner_of_queued hq
  rcases ho with ho | ho
  · rw [h1] at ho
    cases ho
    rw [hp] at hq
    cases hq
  · rw [h1] at ho
    cases ho

lemma Ok.data (hp : s.pc p = .idle) {o : β → Option ι} {f : β → Buf δ}
    (hb : s.owner b = some p ∨ s.owner b = none) (ho : ∀ c, c ≠ b → o c = s.owner c)
    (hf : ∀ c, c ≠ b → f c = s.buf c) : Ok { s with owner := o, buf := f } L := by
  have hbL := h.not_mem hp hb
  have hne : ∀ c ∈ L, c ≠ b := by
    rintro c hc rfl
    exact hbL hc
  refine ⟨h.chain, h.nodup, fun c hc => ?_, h.queued, h.locked, fun q => ?_, h.idle, fun c hc => ?_,
    h.irq, h.handler, h.told⟩
  · show (f c).clean = false
    rw [hf c (hne c hc)]
    exact h.todo c hc
  · by_cases hqp : q = p
    · rw [hqp, hp]
      trivial
    · -- the others own other buffers
      have hqb : ∀ c, s.owner c = some q → c ≠ b := by
        rintro c hc rfl
        rcases hb with hb | hb
        · rw [hc] at hb
          exact hqp (some.inj hb)
        · rw [hc] at hb
          cases hb
      apply (h.fits q).frame
      · intro c hc
        exact (ho c (hqb c hc)).trans hc
      · intro c hc hcL
        exact ⟨hcL, hf c (hqb c hc)⟩
      · intro c _ hcL hcL'
        exact absurd hcL hcL'
      · exact fun c r _ hr => ⟨r, hr⟩
      · exact fun _ => ⟨rfl, rfl⟩
  · obtain ⟨h1, c', h2, h3⟩ := h.busy c hc
    refine ⟨h1, c', h2, ?_⟩
    show c.For (f c') s.disk s.port
    rw [hf c' (hne c' (mem_of_mem_head? h2))]
    exact h3

lemma Ok.unlink (hp : s.pc p = .append b) : Ok { s with qnext := update s.qnext b none } L := by
  have hb : b ∉ L := by
    have hf := h.fits p
    rw [hp] at hf
    exact hf.2.1
  have hhold : (s.pc p).holds = true := by rw [hp]; rfl
  refine ⟨h.chain.congr fun c hc => ?_, h.nodup, h.todo, h.queued, h.locked, fun q => ?_, h.idle, h.busy,
    h.irq, h.handler, h.told⟩
  · apply update_of_ne
    rintro rfl
    exact hb hc
  · by_cases hqp : q = p
    · have hf := h.fits q
      rw [hqp, hp] at hf
      rw [hqp, hp]
      exact hf
    · refine (h.fits q).same rfl rfl (fun hk => ?_) fun _ r _ hr => ⟨r, hr⟩
      rw [h.others hhold hqp] at hk
      cases hk

lemma Ok.command (hp : s.pc p = k₀) (hs0 : k₀.starts L) (hb : s.idequeue = some b)
    (hk : k.holds = true) (hq : k.queued = k₀.queued)
    (hs : ¬ k.starts L) (hh : k.handles = false) (hw : ∀ b, k₀ ≠ .wake b)
    (hf : Fits { s.goto p k with cmd := some (s.buf b).cmd } L p k) :
    Ok { s.goto p k with cmd := some (s.buf b).cmd } L := by
  subst hp
  have hhold := Pc.holds_of_starts hs0
  have hhead : L.head? = some b := h.chain.head.symm.trans hb
  -- the disk has none
  have hnone : s.cmd = none := by
    cases hc : s.cmd with
    | none => rfl
    | some c => exact absurd hs0 ((h.busy c hc).1 p)
  have hdone : ¬ s.done := by
    rintro ⟨c, hc, -⟩
    rw [hnone] at hc
    cases hc
  have hnodone : ¬ State.done { s.goto p k with cmd := some (s.buf b).cmd } := by
    rintro ⟨c, hc, hd⟩
    cases hc
    cases hd
  have hqueued : ∀ q, (update s.pc p k q).queued = (s.pc q).queued :=
    pc_update (P := fun q k => k.queued = (s.pc q).queued) hq fun _ _ => rfl
  have hhandles : ∀ q, (update s.pc p k q).handles = false := by
    refine pc_update (P := fun _ k => k.handles = false) hh fun q _ => ?_
    rw [← not_eq_true]
    exact fun hx => hdone (h.handler q hx).1
  refine ⟨h.chain, h.nodup, h.todo, fun c hc => ?_, h.locked.move (hk.trans hhold.symm), ?_, nofun,
    fun c hc => ⟨?_, b, hhead, ?_⟩, fun hi => absurd (h.irq hi).1 hdone, fun q hq => ?_,
    fun hd => absurd hd hnodone⟩
  · obtain ⟨q, hq⟩ := h.queued c hc
    exact ⟨q, (hqueued q).trans hq⟩
  · apply pc_update hf
    intro q hqp
    exact (h.fits q).same rfl rfl (fun _ => rfl) fun b r _ => wake_update hw b r
  · exact pc_update (P := fun _ k => ¬ k.starts L) hs fun q hqp => h.not_starts hhold hqp
  · cases hc
    exact ⟨rfl, rfl, nofun, nofun⟩
  · exact absurd ((hhandles q).symm.trans hq) false_ne_true

end

/-- where `*pp` is null, the buffer becomes the last one. -/
theorem Ok.link {pp : Option β} (h : Ok s L) (hp : s.pc p = .walk b pp) (hd : s.deref pp = none) :
    Ok ((s.link b pp).goto p (.start b)) (L ++ [b]) := by
  have hf := h.fits p
  rw [hp] at hf
  obtain ⟨ho, hb, hc, hn, hpp⟩ := hf
  have hhold : (s.pc p).holds = true := by rw [hp]; rfl
  have hmem : ∀ c, c ∈ L ++ [b] ↔ c ∈ L ∨ c = b := fun c => by
    rw [mem_append, mem_singleton]
  have hqueued : ∀ q c, (s.pc q).queued = some c → (update s.pc p (.start b) q).queued = some c := by
    intro q c hq
    have hqp : q ≠ p := by
      rintro rfl
      rw [hp] at hq
      cases hq
    rw [update_of_ne hqp]
    exact hq
  have hhandles : ∀ q, (update s.pc p (.start b) q).handles = (s.pc q).handles :=
    pc_update (P := fun q k => k.handles = (s.pc q).handles) (by rw [hp]; rfl) fun _ _ => rfl
  have hself : update s.pc p (.start b) p = .start b := update_self ..
  have hchain : Chain (s.link b pp).qnext (s.link b pp).idequeue (L ++ [b]) := by
    cases pp with
    | none =>
      -- the queue is empty
      have hL : L = [] := h.chain.nil_iff.mp hd
      rw [hL]
      exact ⟨rfl, hn⟩
    | some c => exact h.chain.push h.nodup (hpp c rfl) hd hb hn
  -- apart from the links nothing has changed
  obtain ⟨s1, hs1, e1, e2, e3, e4, e5, e6, e7, e8⟩ : ∃ s1, s.link b pp = s1 ∧ s1.pc = s.pc ∧
      s1.buf = s.buf ∧ s1.owner = s.owner ∧ s1.cmd = s.cmd ∧ s1.lock = s.lock ∧ s1.disk = s.disk ∧
      s1.port = s.port ∧ s1.irq = s.irq := by
    cases pp <;> exact ⟨_, rfl, rfl, rfl, rfl, rfl, rfl, rfl, rfl, rfl⟩
  have hdone : s1.done ↔ s.done := by
    unfold State.done
    rw [e4]
  rw [hs1] at hchain ⊢
  unfold State.goto
  rw [e1]
  refine ⟨hchain, ?_, fun c hc' => ?_, fun c hc' => ?_, ?_, ?_, fun hnone => ?_, fun c hc' => ⟨?_, ?_⟩,
    fun hi => ?_, fun q hq => ?_, fun hx => ?_⟩
  · rw [nodup_append]
    refine ⟨h.nodup, nodup_singleton b, ?_⟩
    rintro c hc d hd rfl
    rw [mem_singleton] at hd
    exact hb (hd ▸ hc)
  · rw [e2]
    rcases (hmem c).mp hc' with hc' | rfl
    · exact h.todo c hc'
    · exact hc
  · rcases (hmem c).mp hc' with hc' | rfl
    · obtain ⟨q, hq⟩ := h.queued c hc'
      exact ⟨q, hqueued q c hq⟩
    · exact ⟨p, congrArg Pc.queued hself⟩
  · rw [e5]
    exact h.locked.move (by rw [hp]; rfl)
  · apply pc_update (P := fun q k => Fits _ (L ++ [b]) q k)
    · exact ⟨(congrFun e3 b).trans ho, (hmem b).mpr (.inr rfl)⟩
    · intro q hqp
      apply (h.fits q).frame
      · exact fun c hc => (congrFun e3 c).trans hc
      · intro c hco hcL
        refine ⟨fun hx => ?_, congrFun e2 c⟩
        rcases (hmem c).mp hx with hx | rfl
        · exact hcL hx
        · rw [ho] at hco
          exact hqp (some.inj hco).symm
      · exact fun c _ hcL hx => absurd ((hmem c).mpr (.inl hcL)) hx
      · exact fun c r _ => wake_update (by rw [hp]; exact nofun) c r
      · intro hk
        rw [h.others hhold hqp] at hk
        cases hk
  · -- the command for `b` comes next
    right
    refine ⟨p, ?_⟩
    show Pc.starts (L ++ [b]) (update s.pc p (.start b) p)
    rw [hself]
    rcases h.idle (e4 ▸ hnone) with hL | ⟨q, hq⟩
    · rw [hL]
      rfl
    · by_cases hqp : q = p
      · rw [hqp, hp] at hq
        exact hq.elim
      · exact absurd hq (h.not_starts hhold hqp)
  · have hc2 := h.busy c (e4 ▸ hc')
    obtain ⟨-, b0, h0, -⟩ := hc2
    refine pc_update (P := fun _ k => ¬ k.starts (L ++ [b])) (fun hx => ?_) fun q hqp => h.not_starts hhold hqp
    have hx : (L ++ [b]).head? = some b := hx
    rw [List.head?_append, h0] at hx
    cases hx
    exact hb (mem_of_mem_head? h0)
  · obtain ⟨-, b0, h0, h1⟩ := h.busy c (e4 ▸ hc')
    refine ⟨b0, by rw [List.head?_append, h0]; rfl, ?_⟩
    rw [e2, e6, e7]
    exact h1
  · obtain ⟨h1, h2⟩ := h.irq (e8 ▸ hi)
    exact ⟨hdone.mpr h1, fun q => (hhandles q).trans (h2 q)⟩
  · obtain ⟨h1, h2, h3⟩ := h.handler q ((hhandles q).symm.trans hq)
    exact ⟨hdone.mpr h1, e8.trans h2, fun r hr => h3 r ((hhandles r).symm.trans hr)⟩
  · rcases h.told (hdone.mp hx) with h1 | ⟨q, h1⟩
    · exact .inl (e8.trans h1)
    · exact .inr ⟨q, (hhandles q).trans h1⟩

lemma finish_clean : (x.finish port).clean = true := rfl

/-- `ideintr` takes the first buffer: its command is the one that was executed. -/
theorem Ok.pop (h : Ok s (b :: L)) (hp : s.pc p = .pop) : Ok { s.goto p (.wake b) with
          idequeue := s.qnext b
          buf := update s.buf b ((s.buf b).finish s.port)
          cmd := none } L := by
  obtain ⟨hbL, hnd⟩ := nodup_cons.mp h.nodup
  have hhold : (s.pc p).holds = true := by rw [hp]; rfl
  have hne : ∀ c, c ∈ L → c ≠ b := by
    rintro c hc rfl
    exact hbL hc
  obtain ⟨-, hirq, huniq⟩ := h.handler p (by rw [hp]; rfl)
  have hself : update s.pc p (.wake b) p = .wake b := update_self ..
  have hhandles : ∀ q, (update s.pc p (.wake b) q).handles = false := by
    refine pc_update (P := fun _ k => k.handles = false) rfl fun q hqp => ?_
    rw [← not_eq_true]
    exact fun hx => hqp (huniq q hx)
  refine ⟨h.chain.2, hnd, fun c hc => ?_, fun c hc => ?_, h.locked.move (by rw [hp]; rfl), ?_,
    fun _ => .inr ⟨p, ?_⟩, nofun, fun hi => ?_, fun q hq => ?_, nofun⟩
  · show (update s.buf b _ c).clean = false
    rw [update_of_ne (hne c hc)]
    exact h.todo c (mem_cons_of_mem _ hc)
  · obtain ⟨q, hq⟩ := h.queued c (mem_cons_of_mem _ hc)
    have hqp : q ≠ p := by
      rintro rfl
      rw [hp] at hq
      cases hq
    refine ⟨q, ?_⟩
    show (update s.pc p (.wake b) q).queued = some c
    rw [update_of_ne hqp]
    exact hq
  · apply pc_update (P := fun q k => Fits _ L q k)
    · trivial
    · intro q hqp
      apply (h.fits q).frame
      · exact fun c hc => hc
      · intro c _ hcL
        obtain ⟨hcb, hcL⟩ := not_or.mp (fun hx => hcL (mem_cons.mpr hx))
        exact ⟨hcL, update_of_ne hcb ..⟩
      · intro c _ hcL hcL'
        obtain rfl := (mem_cons.mp hcL).resolve_right hcL'
        refine ⟨?_, p, hself⟩
        show (update s.buf c _ c).clean = true
        rw [update_self]
        exact finish_clean
      · exact fun c r _ => wake_update (by rw [hp]; exact nofun) c r
      · intro hk
        rw [h.others hhold hqp] at hk
        cases hk
  · show Pc.starts L (update s.pc p (.wake b) p)
    rw [hself]
    trivial
  · exact absurd (hirq.symm.trans hi) false_ne_true
  · exact absurd ((hhandles q).symm.trans hq) false_ne_true

lemma rouse_cases (b : β) (k : Pc β) : k = .asleep b ∧ k.rouse b = .ready b ∨ k ≠ .asleep b ∧ k.rouse b = k := by
  cases k with
  | asleep c =>
    by_cases hc : c = b
    · rw [hc]
      exact .inl ⟨rfl, if_pos rfl⟩
    · exact .inr ⟨fun hx => hc (Pc.asleep.inj hx), if_neg hc⟩
  | _ => exact .inr ⟨nofun, rfl⟩

@[simp] lemma rouse_queued : (k.rouse b).queued = k.queued := by
  obtain ⟨rfl, h⟩ | ⟨-, h⟩ := rouse_cases b k
  · rw [h]; rfl
  · rw [h]

@[simp] lemma rouse_holds : (k.rouse b).holds = k.holds := by
  obtain ⟨rfl, h⟩ | ⟨-, h⟩ := rouse_cases b k
  · rw [h]; rfl
  · rw [h]

@[simp] lemma rouse_handles : (k.rouse b).handles = k.handles := by
  obtain ⟨rfl, h⟩ | ⟨-, h⟩ := rouse_cases b k
  · rw [h]; rfl
  · rw [h]

@[simp] lemma rouse_starts : (k.rouse b).starts L ↔ k.starts L := by
  obtain ⟨rfl, h⟩ | ⟨-, h⟩ := rouse_cases b k
  · rw [h]; exact Iff.rfl
  · rw [h]

lemma Ok.rouse (h : Ok s L) (hp : s.pc p = .wake b) :
    Ok { s with pc := update (fun q => (s.pc q).rouse b) p .next } L := by
  have hhold : (s.pc p).holds = true := by rw [hp]; rfl
  refine h.move (l := s.lock) ?_ (fun c _ => ?_) (fun _ => ?_) ?_ (pc_update trivial fun q hqp => ?_)
  · apply Mutex.move (h.locked.congr fun q => rouse_holds)
    rw [hp]
    rfl
  · apply pc_update (P := fun q k => (s.pc q).queued = some c → k.queued = some c) (by rw [hp]; exact nofun)
    exact fun _ _ => rouse_queued.trans
  · exact pc_update (P := fun q k => k.starts L ↔ (s.pc q).starts L) (by rw [hp]; exact Iff.rfl)
      fun _ _ => rouse_starts
  · exact pc_update (P := fun q k => k.handles = (s.pc q).handles) (by rw [hp]; rfl) fun _ _ => rouse_handles
  · have hf := h.fits q
    obtain ⟨hk, hr⟩ | ⟨hk, hr⟩ := rouse_cases b (s.pc q)
    · rw [hr]
      rw [hk] at hf
      exact ⟨hf.1, fun hb => (hf.2 hb).1⟩
    · rw [hr]
      refine hf.same rfl rfl (fun _ => rfl) fun c r hc hw => ?_
      -- only `p` is about to wake sleepers, those on `b`
      have hrp : r = p := h.locked.unique (by rw [hw]; rfl) hhold
      rw [hrp, hp] at hw
      cases hw
      exact absurd hc hk

lemma Cmd.For.write {port y : δ} (h : c.For x disk port) (ho : c.out = some y) :
    Cmd.For { c with done := true } x (update disk c.key y) port := by
  have hout := h.out
  rw [ho] at hout
  refine ⟨h.key, h.out, fun _ hx => ?_, fun _ hx => ?_⟩
  · rw [if_pos hx] at hout
    rw [h.key, update_self]
    exact some.inj hout
  · rw [hx] at hout
    cases hout

lemma Cmd.For.fetch (h : c.For x disk port) (ho : c.out = none) :
    Cmd.For { c with done := true } x disk (disk c.key) := by
  have hout := h.out
  rw [ho] at hout
  refine ⟨h.key, h.out, fun _ hx => ?_, fun _ _ => by rw [h.key]⟩
  rw [if_pos hx] at hout
  cases hout

lemma Ok.serve (h : Ok s L) (hc : s.cmd = some c) (hd : c.done = false)
    (hfor : ∀ x : Buf δ, c.For x s.disk s.port → Cmd.For { c with done := true } x disk port) :
    Ok { s with disk := disk, port := port, cmd := some { c with done := true }, irq := true } L := by
  -- no handler yet: before, the command was not executed
  have hnone : ∀ q, (s.pc q).handles = false := by
    intro q
    rw [← not_eq_true]
    intro hx
    obtain ⟨⟨c', hc', hd'⟩, -⟩ := h.handler q hx
    rw [hc] at hc'
    cases hc'
    rw [hd] at hd'
    cases hd'
  refine ⟨h.chain, h.nodup, h.todo, h.queued, h.locked, fun q => ?_, nofun, fun c' hc' => ?_,
    fun _ => ⟨⟨_, rfl, rfl⟩, hnone⟩, fun q hq => ?_, fun _ => .inl rfl⟩
  · exact (h.fits q).same rfl rfl (fun _ => rfl) fun _ r _ hr => ⟨r, hr⟩
  · cases hc'
    obtain ⟨h1, b, h2, h3⟩ := h.busy c hc
    exact ⟨h1, b, h2, hfor _ h3⟩
  · exact absurd ((hnone q).symm.trans hq) false_ne_true

lemma Ok.intr (h : Ok s L) (hp : s.pc p = .idle) (hi : s.irq = true) : Ok { s.goto p .intr with irq := false } L := by
  obtain ⟨hdone, hnone⟩ := h.irq hi
  have hqueued : ∀ q, (update s.pc p .intr q).queued = (s.pc q).queued :=
    pc_update (P := fun q k => k.queued = (s.pc q).queued) (by rw [hp]; rfl) fun _ _ => rfl
  have hstarts : ∀ q, (update s.pc p .intr q).starts L ↔ (s.pc q).starts L :=
    pc_update (P := fun q k => k.starts L ↔ (s.pc q).starts L) (by rw [hp]; exact Iff.rfl) fun _ _ => Iff.rfl
  have honly : ∀ q, (update s.pc p .intr q).handles = true → q = p := by
    intro q hq
    by_contra hqp
    rw [update_of_ne hqp, hnone q] at hq
    cases hq
  refine ⟨h.chain, h.nodup, h.todo, fun c hc => ?_, h.locked.move (by rw [hp]; rfl), ?_, fun hc => ?_,
    fun c hc => ?_, nofun, fun q hq => ⟨hdone, rfl, fun r hr => ?_⟩, fun _ => .inr ⟨p, ?_⟩⟩
  · obtain ⟨q, hq⟩ := h.queued c hc
    exact ⟨q, (hqueued q).trans hq⟩
  · apply pc_update (P := fun q k => Fits _ L q k)
    · trivial
    · intro q hqp
      exact (h.fits q).same rfl rfl (fun _ => rfl) fun b r _ => wake_update (by rw [hp]; exact nofun) b r
  · rcases h.idle hc with h1 | ⟨q, h1⟩
    · exact .inl h1
    · exact .inr ⟨q, (hstarts q).mpr h1⟩
  · obtain ⟨h1, h2⟩ := h.busy c hc
    exact ⟨fun q hx => h1 q ((hstarts q).mp hx), h2⟩
  · exact (honly r hr).trans (honly q hq).symm
  · show (update s.pc p .intr p).handles = true
    rw [update_self]
    rfl

/-! ## runs -/

/-- the queue after a step. -/
def Event.queue (L : List β) : Event β → List β
  | .submit b => L ++ [b]
  | .complete _ => L.tail
  | _ => L

lemma event_disk (s : State ι β δ) : (event s .disk).queue L = L := by
  unfold event
  cases s.idequeue <;> rfl

theorem Ok.step {a : Label ι β δ} {e : Event β} (h : Ok s L) (hm : Move s a e s') : Ok s' (e.queue L) := by
  have fit : ∀ {p k}, s.pc p = k → Fits s L p k := fun {p k} hp => hp ▸ h.fits p
  have move : ∀ {p k₀ k}, s.pc p = k₀ → k.holds = k₀.holds →
      Mutex s.lock Pc.holds (update s.pc p k) := fun hp hk => h.locked.move (by rw [hk, hp])
  have give : ∀ {p k₀ k}, s.pc p = k₀ → k₀.holds = true → k.holds = false →
      Mutex none Pc.holds (update s.pc p k) := fun hp h0 hk => h.locked.give (by rw [hp, h0]) hk
  cases hm with
  | @lock p b hp ho =>
    exact h.data hp (b := b) (.inr ho) (fun c hc => update_of_ne hc ..) fun _ _ => rfl
  | @unlock p b hp ho =>
    exact h.data hp (b := b) (.inl ho) (fun c hc => update_of_ne hc ..) fun _ _ => rfl
  | @edit p b x hp ho =>
    exact h.data hp (b := b) (.inl ho) (fun _ _ => rfl) fun c hc => update_of_ne hc ..
  | iderw hp ho hc =>
    exact h.goto hp (move hp rfl) (fun _ _ hx => hx) (fun _ => Iff.rfl) rfl nofun ⟨ho, h.not_mem hp (.inl ho), hc⟩
  | enter hp hl | back hp hl =>
    exact h.goto hp (h.locked.take hl rfl) (fun _ _ hx => hx) (fun _ => Iff.rfl) rfl nofun (fit hp)
  | append hp =>
    obtain ⟨ho, hb, hc⟩ := fit hp
    have h' := h.unlink hp
    exact h'.goto hp (move hp rfl) (fun _ _ hx => hx) (fun _ => Iff.rfl) rfl nofun ⟨ho, hb, hc, update_self .., nofun⟩
  | @walk p b pp d hp hd =>
    obtain ⟨ho, hb, hc, hn, hpp⟩ := fit hp
    have hdL : d ∈ L := by
      cases pp with
      | none => exact mem_of_mem_head? (h.chain.head.symm.trans hd)
      | some c => exact h.chain.mem (hpp c rfl) hd
    refine h.goto hp (move hp rfl) (fun _ _ hx => hx) (fun _ => Iff.rfl) rfl nofun ⟨ho, hb, hc, hn, fun c hc => ?_⟩
    cases hc
    exact hdL
  | link hp hd => exact h.link hp hd
  | start hp hq =>
    obtain ⟨ho, hbL⟩ := fit hp
    exact h.command hp (h.chain.head.symm.trans hq) hq rfl rfl id rfl nofun ⟨ho, fun hx => absurd hbL hx⟩
  | @queued p b hp hq =>
    obtain ⟨ho, hbL⟩ := fit hp
    -- it is not the first one, so another process has seen to the command
    have hs : ¬ Pc.starts L (.start b) := fun hx => hq (h.chain.head.trans hx)
    exact h.goto hp (move hp rfl) (fun _ _ hx => hx) (fun _ => ⟨False.elim, hs⟩) rfl nofun ⟨ho, fun hx => absurd hbL hx⟩
  | @found p b hp hc =>
    have hbL : b ∉ L := by
      intro hb
      rw [h.todo b hb] at hc
      cases hc
    refine h.goto hp (move hp rfl) (fun d hd hx => ?_) (fun _ => Iff.rfl) rfl nofun ⟨(fit hp).1, hbL, hc⟩
    cases hx
    exact absurd hd hbL
  | sleep hp hc =>
    refine h.goto hp (give hp rfl rfl) (fun _ _ hx => hx) (fun _ => Iff.rfl) rfl nofun ⟨(fit hp).1, fun hb => ?_⟩
    exact absurd (hc.symm.trans ((fit hp).2 hb)) false_ne_true
  | leave hp | quit hp => exact h.goto hp (give hp rfl rfl) (fun _ _ hx => hx) (fun _ => Iff.rfl) rfl nofun trivial
  | handle hp hl => exact h.goto hp (h.locked.take hl rfl) (fun _ _ hx => hx) (fun _ => Iff.rfl) rfl nofun trivial
  | @empty p hp hq =>
    -- the interrupt is for the command of the first buffer
    obtain ⟨⟨c, hc, -⟩, -⟩ := h.handler p (by rw [hp]; rfl)
    obtain ⟨-, b, hb, -⟩ := h.busy c hc
    rw [← h.chain.head, hq] at hb
    cases hb
  | pop hp hq =>
    obtain ⟨L', rfl, -⟩ := Chain.pop (hq ▸ h.chain)
    exact h.pop hp
  | wake hp => exact h.rouse hp
  | last hp hq =>
    have hL : L = [] := h.chain.nil_iff.mp hq
    exact h.goto hp (move hp rfl) (fun _ _ hx => hx) (fun hx => absurd hL hx) rfl nofun trivial
  | next hp hq => exact h.command hp trivial hq rfl rfl id rfl nofun trivial
  | write hc hd ho =>
    rw [event_disk]
    exact h.serve hc hd fun y hy => hy.write ho
  | read hc hd ho =>
    rw [event_disk]
    exact h.serve hc hd fun y hy => hy.fetch ho
  | intr hp hi => exact h.intr hp hi
  | kill hp =>
    exact h.goto hp (move hp rfl) (fun _ _ hx => hx) (fun _ => Iff.rfl) rfl nofun ⟨(fit hp).1, fun hb => ((fit hp).2 hb).1⟩
  | miss => exact h

end Xv6.Ide
