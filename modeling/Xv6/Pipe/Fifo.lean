import Xv6.Pipe.Machine
import Xv6.Lib.History
import Xv6.Lib.Mutex

/-!
# A pipe is a FIFO

Everything is read off the trace: `stored tr` are the bytes that the steps of `tr` put into the
buffer, in the order in which they did it, and `returned tr` are the bytes that `piperead` returned.
`s.buffered` are the bytes between the two counters. What a run keeps (`Books`) is

    returned tr ++ s.inHand ++ s.buffered = stored tr,

where `s.inHand` are the bytes that a `piperead` has taken and not yet returned: it holds the pipe's
lock for the whole time, so there are none when the lock is free.
-/

set_option linter.unusedSectionVars false

namespace Xv6.Pipe
open Lib Function List State

variable {ι : Type} [DecidableEq ι] {s s' t : State ι} {a : Label ι} {p q : ι}
  {tr : Trace ι} {src : List UInt8} {i : Nat}
variable {k : Pc} {src : List UInt8} {e : State ι × Label ι}

/-! ## who has the lock -/

/-- where a process holds `p->lock`. -/
def Pc.holds : Pc → Bool
  | .loop _ | .copy _ _ | .wakeup _ _ | .sleep _ | .unlock _ | .leave _ => true
  | _ => false

/-- the bytes that a `piperead` has taken and not yet returned. -/
def Pc.hand : Pc → List UInt8
  | .copy _ got => got
  | .wakeup _ (.leave (.got bytes)) => bytes
  | .leave (.got bytes) => bytes
  | _ => []

@[simp] lemma Pc.rouse_holds (pc : Pc) : pc.rouse.holds = pc.holds := by cases pc <;> rfl

@[simp] lemma Pc.rouse_hand (pc : Pc) : pc.rouse.hand = pc.hand := by cases pc <;> rfl

lemma Next.pc_holds (k : Next) : k.pc.holds = true := by cases k <;> rfl

lemma Next.pc_hand (ch : Chan) (k : Next) : k.pc.hand = (Pc.wakeup ch k).hand := by
  cases k with
  | sleep => rfl
  | leave r => cases r <;> rfl

@[simp] lemma wakeup1_holds (ch : Chan) (pc : ι → Pc) : (wakeup1 ch pc q).holds = (pc q).holds := by
  unfold wakeup1
  split
  · exact Pc.rouse_holds _
  · rfl

@[simp] lemma wakeup1_hand (ch : Chan) (pc : ι → Pc) : (wakeup1 ch pc q).hand = (pc q).hand := by
  unfold wakeup1
  split
  · exact Pc.rouse_hand _
  · rfl

/-- the owner of the lock is the process whose code holds it. -/
def Locked (s : State ι) : Prop := Mutex s.lock Pc.holds s.pc

theorem Locked.step (h : Locked s) (ht : Trans s a s') : Locked s' := by
  cases ht with
  | call hp | wrote hp | quit hp | wait hp | put hp | giveUp hp | hungry hp
  | read hp | take hp | copied hp | shutWrite hp | shutRead hp | sleep hp | doze hp | ready hp =>
    exact h.move (by rw [hp]; rfl)
  | enter hp hl => exact h.take hl rfl
  | @wakeup p ch k hp =>
    have h1 : Mutex s.lock Pc.holds (wakeup1 ch s.pc) := h.congr fun q => wakeup1_holds ch s.pc
    exact h1.move (by rw [wakeup1_holds, hp, k.pc_holds]; rfl)
  | unlock hp | leave hp => exact h.give (by rw [hp]; rfl) rfl
  | kill => exact h.move (Pc.rouse_holds _)

lemma Locked.pipealloc (data : Fin PIPESIZE → UInt8) (killed : ι → Bool) :
    Locked (State.pipealloc data killed) := fun _ => ⟨nofun, nofun⟩

/-! ## the books -/

def State.buffered (s : State ι) : List UInt8 := Ring.contents UINT s.data s.nread s.nwrite

/-- the bytes in the hand of the reader that has the lock. -/
def State.inHand (s : State ι) : List UInt8 := s.lock.elim [] fun p => (s.pc p).hand

/-- the byte that a step stores. -/
def storedAt (e : State ι × Label ι) : Option UInt8 :=
  match e.2 with
  | .step p =>
    match e.1.pc p with
    | .loop (.write src i) => if e.1.full then none else src[i]?
    | _ => none
  | _ => none

/-- the bytes that a step returns to a reader. -/
def returnedAt (e : State ι × Label ι) : List UInt8 :=
  match e.2 with
  | .step p =>
    match e.1.pc p with
    | .leave (.got bytes) => bytes
    | _ => []
  | _ => []

def stored (tr : Trace ι) : List UInt8 := tr.filterMap storedAt

def returned (tr : Trace ι) : List UInt8 := tr.flatMap returnedAt

section
variable (tr : Trace ι) (e : State ι × Label ι)

lemma stored_concat : stored (tr ++ [e]) = stored tr ++ (storedAt e).toList :=
  filterMap_concat ..

lemma returned_concat : returned (tr ++ [e]) = returned tr ++ returnedAt e := by
  unfold returned
  rw [flatMap_append, flatMap_singleton]

end

/-- the counters are `uint`s at most `PIPESIZE` apart. -/
structure Counters (s : State ι) : Prop where
  read_lt : s.nread < UINT
  write_lt : s.nwrite < UINT
  fill_le : Ring.fill UINT s.nread s.nwrite ≤ PIPESIZE

section
variable (h : Counters s)
include h

lemma Counters.of_eq (hr : s'.nread = s.nread) (hw : s'.nwrite = s.nwrite) : Counters s' :=
  ⟨hr ▸ h.read_lt, hw ▸ h.write_lt, hr ▸ hw ▸ h.fill_le⟩

lemma Counters.full_iff : s.full ↔ Ring.fill UINT s.nread s.nwrite = PIPESIZE :=
  (Ring.fill_eq_full (by decide) h.read_lt h.write_lt).symm

lemma Counters.empty_iff : s.empty ↔ Ring.fill UINT s.nread s.nwrite = 0 :=
  (Ring.fill_eq_zero h.read_lt h.write_lt).symm

lemma Counters.fill_lt (hf : ¬ s.full) : Ring.fill UINT s.nread s.nwrite < PIPESIZE :=
  lt_of_le_of_ne h.fill_le fun he => hf (h.full_iff.mpr he)

lemma Counters.fill_put (hf : ¬ s.full) (x : UInt8) :
    Ring.fill UINT (s.put x).nread (s.put x).nwrite = Ring.fill UINT s.nread s.nwrite + 1 :=
  Ring.fill_put h.read_lt h.write_lt (Nat.lt_of_le_of_lt (Nat.succ_le_of_lt (h.fill_lt hf)) (by decide))

lemma Counters.put (hf : ¬ s.full) (x : UInt8) : Counters (s.put x) := by
  refine ⟨h.read_lt, Nat.mod_lt _ (by decide), ?_⟩
  rw [h.fill_put hf]
  exact h.fill_lt hf

lemma Counters.drop (he : ¬ s.empty) : Counters s.drop := by
  refine ⟨Nat.mod_lt _ (by decide), h.write_lt, ?_⟩
  have h1 := Ring.fill_take h.read_lt h.write_lt he
  have hle := h.fill_le
  show Ring.fill UINT ((s.nread + 1) % UINT) s.nwrite ≤ PIPESIZE
  omega

lemma Counters.buffered_put (hf : ¬ s.full) (x : UInt8) : (s.put x).buffered = s.buffered ++ [x] :=
  Ring.contents_push (by decide) (by decide) h.read_lt h.write_lt (h.fill_lt hf) x

lemma Counters.buffered_drop (he : ¬ s.empty) : s.buffered = s.front :: s.drop.buffered :=
  Ring.contents_pop (by decide) h.read_lt h.write_lt he

end

/-- the counters and the buffer are only changed by `put` and `drop`. -/
structure Books (tr : Trace ι) (s : State ι) : Prop where
  locked : Locked s
  counters : Counters s
  books : returned tr ++ s.inHand ++ s.buffered = stored tr

lemma inHand_update {pc : ι → Pc} (hk : k.hand = (pc p).hand) (l : Option ι) :
    (l.elim [] fun q => (update pc p k q).hand) = l.elim [] fun q => (pc q).hand := by
  have h : (fun q => (update pc p k q).hand) = fun q => (pc q).hand := by
    funext q
    by_cases hq : q = p
    · rw [hq, update_self, hk]
    · rw [update_of_ne hq]
  rw [h]

lemma Locked.inHand (h : Locked s) (hp : (s.pc p).holds = true) : s.inHand = (s.pc p).hand := by
  unfold State.inHand
  rw [(h p).mpr hp]
  rfl

lemma State.inHand_free (h : s.lock = none) : s.inHand = [] := by
  unfold State.inHand
  rw [h]
  rfl

lemma Books.still (h : Books tr s) (ht : Trans s a s') (hn : s'.nread = s.nread)
    (hw : s'.nwrite = s.nwrite) (hd : s'.data = s.data) (hh : s'.inHand = s.inHand)
    (hst : storedAt (s, a) = none) (hr : returnedAt (s, a) = []) : Books (tr ++ [(s, a)]) s' := by
  refine ⟨h.locked.step ht, ?_, ?_⟩
  · have hc := h.counters
    exact ⟨hn ▸ hc.read_lt, hw ▸ hc.write_lt, by rw [hn, hw]; exact hc.fill_le⟩
  · have hb : s'.buffered = s.buffered := by
      unfold State.buffered
      rw [hn, hw, hd]
    rw [stored_concat, returned_concat, hst, hr, hh, hb, append_nil]
    exact h.books.trans (append_nil _).symm

lemma storedAt_loop (hp : s.pc p = .loop (.write src i)) :
    storedAt (s, .step p) = if s.full then none else src[i]? := by
  unfold storedAt
  dsimp only
  rw [hp]

lemma storedAt_eq_none (hp : ∀ src i, s.pc p ≠ .loop (.write src i)) : storedAt (s, .step p) = none := by
  unfold storedAt
  dsimp only
  split
  · next src i h => exact absurd h (hp src i)
  · rfl

lemma returnedAt_leave {r : Ret} (hp : s.pc p = .leave r) : returnedAt (s, .step p) = (Pc.leave r).hand := by
  unfold returnedAt
  dsimp only
  rw [hp]
  cases r <;> rfl

lemma returnedAt_eq_nil (hp : ∀ r, s.pc p ≠ .leave r) : returnedAt (s, .step p) = [] := by
  unfold returnedAt
  dsimp only
  split
  · next bytes h => exact absurd h (hp _)
  · rfl

section
variable (h : Books tr s)
include h

lemma Books.put {x : UInt8}
    (hp : s.pc p = .loop (.write src i)) (hi : src[i]? = some x) (hf : ¬ s.full) :
    Books (tr ++ [(s, .step p)]) ((s.put x).goto p (.loop (.write src (i + 1)))) := by
  have hc := h.counters.put hf x
  refine ⟨h.locked.step (.put hp hi hf), ⟨hc.read_lt, hc.write_lt, hc.fill_le⟩, ?_⟩
  have hr : returnedAt (s, .step p) = [] := returnedAt_eq_nil fun r hr => by rw [hp] at hr; cases hr
  have hb : ((s.put x).goto p (.loop (.write src (i + 1)))).buffered = s.buffered ++ [x] :=
    h.counters.buffered_put hf x
  have hh : ((s.put x).goto p (.loop (.write src (i + 1)))).inHand = s.inHand :=
    inHand_update (by rw [show (s.put x).pc p = _ from hp]; rfl) _
  rw [stored_concat, returned_concat, storedAt_loop hp, if_neg hf, hi, hr, hb, hh, ← h.books,
    append_nil, append_assoc, append_assoc, append_assoc]
  rfl

lemma Books.take {n : Nat} {got : List UInt8} (hp : s.pc p = .copy n got)
    (he : ¬ s.empty) :
    Books (tr ++ [(s, .step p)]) (s.drop.goto p (.copy n (got ++ [s.front]))) := by
  have hc := h.counters.drop he
  have hlk := h.locked.step (.take hp he)
  refine ⟨hlk, ⟨hc.read_lt, hc.write_lt, hc.fill_le⟩, ?_⟩
  have hr : returnedAt (s, .step p) = [] := returnedAt_eq_nil fun r hr => by rw [hp] at hr; cases hr
  have hst : storedAt (s, .step p) = none := storedAt_eq_none fun src i h => by rw [hp] at h; cases h
  have hpc : (s.drop.goto p (.copy n (got ++ [s.front]))).pc p = .copy n (got ++ [s.front]) :=
    update_self ..
  have hold : s.inHand = got := by rw [h.locked.inHand (p := p) (by rw [hp]; rfl), hp]; rfl
  have hnew : (s.drop.goto p (.copy n (got ++ [s.front]))).inHand = got ++ [s.front] := by
    rw [hlk.inHand (p := p) (by rw [hpc]; rfl), hpc]
    rfl
  have hb : s.buffered = s.front :: (s.drop.goto p (.copy n (got ++ [s.front]))).buffered :=
    h.counters.buffered_drop he
  have hbooks := h.books
  rw [hold, hb] at hbooks
  rw [stored_concat, returned_concat, hst, hr, hnew, append_nil, ← append_assoc, append_assoc _ [s.front], ← hbooks]
  exact (append_nil _).symm

lemma Books.leave {r : Ret} (hp : s.pc p = .leave r) :
    Books (tr ++ [(s, .step p)]) { s.goto p .idle with lock := none, freed := s.freed || s.frees r } := by
  refine ⟨h.locked.step (.leave hp), h.counters.of_eq rfl rfl, ?_⟩
  have hst : storedAt (s, .step p) = none := storedAt_eq_none fun src i h => by rw [hp] at h; cases h
  have hold : s.inHand = (Pc.leave r).hand := by rw [h.locked.inHand (p := p) (by rw [hp]; rfl), hp]
  have hbooks := h.books
  rw [hold] at hbooks
  rw [stored_concat, returned_concat, hst, returnedAt_leave hp, inHand_free rfl, append_nil]
  exact hbooks.trans (append_nil _).symm

lemma Books.goto (ht : Trans s (.step p) (s.goto p k))
    (hk : k.hand = (s.pc p).hand) (hr : ∀ r, s.pc p ≠ .leave r)
    (hst : storedAt (s, .step p) = none) : Books (tr ++ [(s, .step p)]) (s.goto p k) :=
  h.still ht rfl rfl rfl (inHand_update hk _) hst (returnedAt_eq_nil hr)

theorem Books.step (ht : Trans s a s') : Books (tr ++ [(s, a)]) s' := by
  -- the places at which a step neither stores nor returns a byte
  have hno : ∀ {p : ι}, (∀ src i, s.pc p ≠ .loop (.write src i)) → storedAt (s, .step p) = none :=
    storedAt_eq_none
  cases ht with
  | call hp =>
    exact h.still (.call hp) rfl rfl rfl (inHand_update (by rw [hp]; rfl) _) rfl rfl
  | @enter p o hp hl =>
    refine h.still (.enter hp hl) rfl rfl rfl ?_ (hno (by simp [hp])) (returnedAt_eq_nil (by simp [hp]))
    rw [inHand_free hl]
    show (update s.pc p (.loop o) p).hand = []
    rw [update_self]
    rfl
  | wrote hp hi =>
    apply h.goto (.wrote hp hi) (by rw [hp]; rfl) (by simp [hp])
    rw [storedAt_loop hp, getElem?_eq_none hi, ite_self]
  | quit hp hi hf hk =>
    exact h.goto (.quit hp hi hf hk) (by rw [hp]; rfl) (by simp [hp]) (by rw [storedAt_loop hp, if_pos hf])
  | wait hp hi hf ho =>
    exact h.goto (.wait hp hi hf ho) (by rw [hp]; rfl) (by simp [hp]) (by rw [storedAt_loop hp, if_pos hf])
  | put hp hi hf => exact h.put hp hi hf
  | giveUp hp => exact h.goto (.giveUp hp) (by rw [hp]; rfl) (by simp [hp]) (hno (by simp [hp]))
  | hungry hp he ho =>
    exact h.goto (.hungry hp he ho) (by rw [hp]; rfl) (by simp [hp]) (hno (by simp [hp]))
  | read hp => exact h.goto (.read hp) (by rw [hp]; rfl) (by simp [hp]) (hno (by simp [hp]))
  | take hp he => exact h.take hp he
  | copied hp => exact h.goto (.copied hp) (by rw [hp]; rfl) (by simp [hp]) (hno (by simp [hp]))
  | shutWrite hp =>
    exact h.still (.shutWrite hp) rfl rfl rfl (inHand_update (by rw [hp]; rfl) _)
      (hno (by simp [hp])) (returnedAt_eq_nil (by simp [hp]))
  | shutRead hp =>
    exact h.still (.shutRead hp) rfl rfl rfl (inHand_update (by rw [hp]; rfl) _)
      (hno (by simp [hp])) (returnedAt_eq_nil (by simp [hp]))
  | @wakeup p ch k hp hl =>
    refine h.still (.wakeup hp hl) rfl rfl rfl ?_ (hno (by simp [hp])) (returnedAt_eq_nil (by simp [hp]))
    show (s.lock.elim [] fun q => (update (wakeup1 ch s.pc) p k.pc q).hand) = s.inHand
    rw [inHand_update (by rw [wakeup1_hand, hp, k.pc_hand ch])]
    simp only [wakeup1_hand]
    rfl
  | sleep hp hl =>
    exact h.still (.sleep hp hl) rfl rfl rfl (inHand_update (by rw [hp]; rfl) _)
      (hno (by simp [hp])) (returnedAt_eq_nil (by simp [hp]))
  | unlock hp =>
    refine h.still (.unlock hp) rfl rfl rfl ?_ (hno (by simp [hp])) (returnedAt_eq_nil (by simp [hp]))
    rw [inHand_free rfl, h.locked.inHand (by rw [hp]; rfl), hp]
    rfl
  | doze hp =>
    exact h.still (.doze hp) rfl rfl rfl (inHand_update (by rw [hp]; rfl) _)
      (hno (by simp [hp])) (returnedAt_eq_nil (by simp [hp]))
  | ready hp hl =>
    exact h.goto (.ready hp hl) (by rw [hp]; rfl) (by simp [hp]) (hno (by simp [hp]))
  | leave hp => exact h.leave hp
  | kill hl =>
    exact h.still (.kill hl) rfl rfl rfl (inHand_update (Pc.rouse_hand _) _) rfl rfl

end

lemma Books.pipealloc (data : Fin PIPESIZE → UInt8) (killed : ι → Bool) : Books [] (State.pipealloc data killed) := by
  have h0 : Ring.fill UINT 0 0 = 0 :=
    (Ring.fill_eq_zero (by decide : 0 < UINT) (by decide : 0 < UINT)).mpr rfl
  refine ⟨.pipealloc data killed, ⟨(by decide : 0 < UINT), (by decide : 0 < UINT), ?_⟩, ?_⟩
  · show Ring.fill UINT 0 0 ≤ PIPESIZE
    rw [h0]
    exact Nat.zero_le _
  · have hb : (State.pipealloc data killed).buffered = [] := by
      apply eq_nil_of_length_eq_zero
      unfold State.buffered
      rw [Ring.length_contents]
      exact h0
    rw [hb]
    rfl

lemma Books.run {data : Fin PIPESIZE → UInt8} {killed : ι → Bool}
    (h : Path Pipe.step (State.pipealloc data killed) tr t) : Books tr t :=
  h.history Books (Books.pipealloc data killed) fun _ _ _ _ _ hI hst => hI.step (step_trans hst)

/-! ## the bytes of one writer -/

/-- the bytes that `p` stores in the steps of `tr`. -/
def storedBy (p : ι) (tr : Trace ι) : List UInt8 :=
  tr.filterMap fun e => if e.2 = .step p then storedAt e else none

lemma storedBy_concat (p : ι) (tr : Trace ι) (e : State ι × Label ι) :
    storedBy p (tr ++ [e]) = storedBy p tr ++ (if e.2 = .step p then storedAt e else none).toList :=
  filterMap_concat ..

lemma storedBy_concat_none (h : e.2 = .step p → storedAt e = none) : storedBy p (tr ++ [e]) = storedBy p tr := by
  rw [storedBy_concat]
  split
  · next he => rw [h he]; exact append_nil _
  · exact append_nil _

/-- a `pipewrite` in progress: its bytes and how many of them are stored. -/
def Pc.writing : Pc → Option (List UInt8 × Nat)
  | .enter (.write src i) | .loop (.write src i) | .wakeup _ (.sleep (.write src i))
  | .sleep (.write src i) | .unlock (.write src i) | .doze (.write src i)
  | .asleep (.write src i) | .ready (.write src i) => some (src, i)
  | _ => none

/-- the number that a `pipewrite` is about to return. -/
def Pc.wrote : Pc → Option Nat
  | .wakeup _ (.leave (.wrote n)) | .leave (.wrote n) => some n
  | _ => none

/-- what `p` has stored since it called `pipewrite` with `src`. -/
structure Writing (p : ι) (src : List UInt8) (tr : Trace ι) (pc : Pc) : Prop where
  part : ∀ w, pc.writing = some w → w.1 = src ∧ storedBy p tr = src.take w.2
  whole : ∀ n, pc.wrote = some n → n = src.length ∧ storedBy p tr = src

/-- a step that stores no byte of `p` and leaves `p` in the same turn of the call, or out of it. -/
theorem Writing.still {pc pc' : Pc} (h : Writing p src tr pc)
    (hst : e.2 = .step p → storedAt e = none) (hw : pc'.writing = pc.writing ∨ pc'.writing = none)
    (hd : pc'.wrote = pc.wrote ∨ pc'.wrote = none) : Writing p src (tr ++ [e]) pc' := by
  refine ⟨fun w he => ?_, fun n he => ?_⟩
  · rw [storedBy_concat_none hst]
    rcases hw with hw | hw
    · exact h.part w (hw ▸ he)
    · rw [hw] at he; cases he
  · rw [storedBy_concat_none hst]
    rcases hd with hd | hd
    · exact h.whole n (hd ▸ he)
    · rw [hd] at he; cases he

lemma Pc.rouse_writing (pc : Pc) : pc.rouse.writing = pc.writing := by
  cases pc with
  | asleep o => cases o <;> rfl
  | _ => rfl

lemma Pc.rouse_wrote (pc : Pc) : pc.rouse.wrote = pc.wrote := by cases pc <;> rfl

/-- in a step of another process, or a `kill`, `p` stays where it is or is roused. -/
theorem Trans.pc_other (ht : Trans s a s') (ha : a ≠ .step p) (hc : ∀ c, a ≠ .call p c) :
    s'.pc p = s.pc p ∨ s'.pc p = (s.pc p).rouse := by
  have goto : ∀ {q : ι} (pc : ι → Pc) (k : Pc), Label.step q ≠ .step p → update pc q k p = pc p :=
    fun pc k hq => update_of_ne (fun he => hq (by rw [he])) k pc
  cases ht with
  | @call q c => exact .inl (update_of_ne (fun he => hc c (by rw [he])) _ _)
  | @wakeup q ch k =>
    show update (wakeup1 ch s.pc) q k.pc p = s.pc p ∨ update (wakeup1 ch s.pc) q k.pc p = (s.pc p).rouse
    rw [goto _ _ ha]
    unfold wakeup1
    split
    · exact .inr rfl
    · exact .inl rfl
  | @kill q =>
    by_cases hq : p = q
    · subst hq
      exact .inr (update_self ..)
    · exact .inl (update_of_ne hq ..)
  | _ => exact .inl (goto _ _ ha)

lemma Op.writing_same (o : Op) : (Pc.loop o).writing = (Pc.enter o).writing ∧
    (Pc.unlock o).writing = (Pc.sleep o).writing ∧ (Pc.doze o).writing = (Pc.unlock o).writing ∧
    (Pc.asleep o).writing = (Pc.doze o).writing ∧ (Pc.enter o).writing = (Pc.ready o).writing := by
  cases o <;> exact ⟨rfl, rfl, rfl, rfl, rfl⟩

lemma Next.pc_writing (ch : Chan) (k : Next) : k.pc.writing = (Pc.wakeup ch k).writing := by
  cases k with
  | sleep o => cases o <;> rfl
  | leave => rfl

lemma Next.pc_wrote (ch : Chan) (k : Next) : k.pc.wrote = (Pc.wakeup ch k).wrote := by
  cases k with
  | sleep => rfl
  | leave r => cases r <;> rfl

lemma Writing.put {x : UInt8}
    (h : Writing p src tr (.loop (.write src i))) (hp : s.pc p = .loop (.write src i))
    (hi : src[i]? = some x) (hf : ¬ s.full) :
    Writing p src (tr ++ [(s, .step p)]) (.loop (.write src (i + 1))) := by
  refine ⟨fun w he => ?_, fun n he => (nomatch he)⟩
  cases he
  have hpart := (h.part _ rfl).2
  refine ⟨rfl, ?_⟩
  rw [storedBy_concat, if_pos rfl, storedAt_loop hp, if_neg hf, hi, hpart, take_add_one, hi]

lemma Writing.own (h : Writing p src tr (s.pc p))
    (ht : Trans s (.step p) s') : Writing p src (tr ++ [(s, .step p)]) (s'.pc p) := by
  -- a step that stores nothing; `hp` says where it starts
  have go : ∀ {pc k : Pc}, s.pc p = pc → (∀ src i, pc ≠ .loop (.write src i)) →
      (k.writing = pc.writing ∨ k.writing = none) → (k.wrote = pc.wrote ∨ k.wrote = none) →
      ∀ f : ι → Pc, Writing p src (tr ++ [(s, .step p)]) (update f p k p) := by
    intro pc k hp hn hw hd f
    rw [update_self]
    subst hp
    exact h.still (fun _ => storedAt_eq_none hn) hw hd
  generalize ha : Label.step p = a at ht
  cases ht with
  | call => cases ha
  | kill => cases ha
  | @enter q o hp =>
    cases ha
    exact go hp (by simp) (.inl o.writing_same.1) (.inr rfl) _
  | @wrote q src' i hp hi =>
    cases ha
    show Writing p src _ (update s.pc p _ p)
    rw [update_self]
    rw [hp] at h
    have hpart := h.part _ rfl
    have hst : storedAt (s, .step p) = none := by
      rw [storedAt_loop hp, getElem?_eq_none hi, ite_self]
    refine ⟨fun w he => (nomatch he), fun n he => ?_⟩
    cases he
    rw [storedBy_concat_none fun _ => hst, hpart.2, ← hpart.1]
    exact ⟨rfl, take_of_length_le hi⟩
  | quit hp hi hf =>
    cases ha
    show Writing p src _ (update s.pc p _ p)
    rw [update_self]
    exact h.still (fun _ => by rw [storedAt_loop hp, if_pos hf]) (.inr rfl) (.inr rfl)
  | wait hp hi hf =>
    cases ha
    show Writing p src _ (update s.pc p _ p)
    rw [update_self]
    exact h.still (fun _ => by rw [storedAt_loop hp, if_pos hf]) (.inl (by rw [hp]; rfl)) (.inr rfl)
  | @put q src' i x hp hi hf =>
    cases ha
    show Writing p src _ (update s.pc p _ p)
    rw [update_self]
    rw [hp] at h
    obtain rfl : src' = src := (h.part _ rfl).1
    exact h.put hp hi hf
  | giveUp hp | hungry hp | read hp | take hp | copied hp | shutWrite hp | shutRead hp | leave hp =>
    cases ha; exact go hp (by simp) (.inr rfl) (.inr rfl) _
  | @wakeup q ch k hp =>
    cases ha
    exact go hp (by simp) (.inl (k.pc_writing ch)) (.inl (k.pc_wrote ch)) _
  | @sleep q o hp => cases ha; exact go hp (by simp) (.inl o.writing_same.2.1) (.inr rfl) _
  | @unlock q o hp => cases ha; exact go hp (by simp) (.inl o.writing_same.2.2.1) (.inr rfl) _
  | @doze q o hp => cases ha; exact go hp (by simp) (.inl o.writing_same.2.2.2.1) (.inr rfl) _
  | @ready q o hp => cases ha; exact go hp (by simp) (.inl o.writing_same.2.2.2.2) (.inr rfl) _

theorem Writing.step (h : Writing p src tr (s.pc p)) (ht : Trans s a s')
    (hc : ∀ c, a ≠ .call p c) : Writing p src (tr ++ [(s, a)]) (s'.pc p) := by
  by_cases ha : a = .step p
  · subst ha
    exact h.own ht
  · rcases ht.pc_other ha hc with hs | hs
    · rw [hs]
      exact h.still (fun he => absurd he ha) (.inl rfl) (.inl rfl)
    · rw [hs]
      exact h.still (fun he => absurd he ha) (.inl (Pc.rouse_writing _)) (.inl (Pc.rouse_wrote _))

/-- from the call of `pipewrite` on, until `p` makes another call. -/
theorem Writing.run (h : Path Pipe.step s tr t)
    (hs : s.pc p = .enter (.write src 0)) (hc : ∀ e ∈ tr, ∀ c, e.2 ≠ .call p c) :
    Writing p src tr (t.pc p) := by
  refine h.history (fun tr t => (∀ e ∈ tr, ∀ c, e.2 ≠ .call p c) → Writing p src tr (t.pc p)) (fun _ => ?_) ?_ hc
  · rw [hs]
    refine ⟨fun w he => ?_, fun n he => (nomatch he)⟩
    cases he
    exact ⟨rfl, rfl⟩
  · intro tr u a u' _ hI hst hc
    exact (hI fun e he => hc e (mem_append_left _ he)).step (step_trans hst)
      (hc (u, a) (mem_append_right _ mem_cons_self))

/-! ## a pipe is a FIFO -/

/-- what makes a pipe a FIFO, in a run `tr` that has come to `t`. -/
structure IsFifo (tr : Trace ι) (t : State ι) : Prop where
  /-- `0 ≤ nwrite - nread ≤ PIPESIZE` modulo `2 ^ 32` -/
  distance : t.nread < UINT ∧ t.nwrite < UINT ∧ (t.nwrite + UINT - t.nread) % UINT ≤ PIPESIZE
  /-- what was stored is what was returned, then what a reader that has the lock is about to return,
  then what is in the buffer. -/
  order : returned tr ++ t.inHand ++ t.buffered = stored tr
  /-- with the lock free no reader is about to return anything. -/
  free : t.lock = none → returned tr ++ t.buffered = stored tr
  /-- a `pipewrite` that returns `n` has stored its `n` bytes in their order. -/
  wrote : ∀ pre u p src mid v n, tr = pre ++ (u, .call p (.write src)) :: (mid ++ [(v, .step p)]) →
    (∀ e ∈ mid, ∀ c, e.2 ≠ .call p c) → v.pc p = .leave (.wrote n) → n = src.length ∧ storedBy p mid = src

/-- **A pipe is a FIFO**, whatever its readers, writers and closers do. -/
theorem pipe_is_fifo {data : Fin PIPESIZE → UInt8} {killed : ι → Bool}
    (h : Path step (State.pipealloc data killed) tr t) : IsFifo tr t := by
  have hb := Books.run h
  refine ⟨⟨hb.counters.read_lt, hb.counters.write_lt, hb.counters.fill_le⟩, hb.books, fun hl => ?_, ?_⟩
  · have hbooks := hb.books
    rw [inHand_free hl, append_nil] at hbooks
    exact hbooks
  · rintro pre u p src mid v n rfl hc hv
    obtain ⟨_, _, h1⟩ := h.split
    obtain ⟨rfl, u', hst, h2⟩ := h1.head
    obtain ⟨v', h3, h4⟩ := h2.split
    obtain ⟨rfl, -⟩ := h4.head
    have hu' : u'.pc p = .enter (.write src 0) := by
      have ht := step_trans hst
      cases ht
      exact update_self ..
    have hw := Writing.run h3 hu' hc
    rw [hv] at hw
    exact hw.whole n rfl

/-- a reader gets the first byte of a writer that has stored three. -/
theorem pipe_is_fifo_three : ∃ (tr : Trace Bool) (t : State Bool),
    Path step (State.pipealloc (fun _ => 0) fun _ => false) tr t ∧ stored tr = [1, 2, 3] ∧
      returned tr = [1] ∧ IsFifo tr t := by
  obtain ⟨tr, t, h, hs, hr⟩ : ∃ tr t, Path step (State.pipealloc (fun _ => 0) fun _ => false) tr t ∧
      stored tr = [1, 2, 3] ∧ returned tr = [1] := Path.of_labels
    (.call true (.read 1) :: replicate 5 (.step true) ++ .call false (.write [1, 2, 3]) ::
      replicate 7 (.step false) ++ replicate 7 (.step true)) (by decide +kernel)
  exact ⟨tr, t, h, hs, hr, pipe_is_fifo h⟩

end Xv6.Pipe
