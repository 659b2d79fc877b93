import Xv6.Console.Machine
import Xv6.Lib.History
import Xv6.Lib.Mutex

/-!
# The line discipline

`Tty` is what the console is for: keys edit a line, a newline, `^D` or a full buffer commits it, and
readers take the committed bytes in order. `tty tr` is what the steps of a run make of it: each key
that `consoleintr` handles, and each byte that `consoleread` takes. The ring of `input` shows the same
(`Shows`):

    Ring.contents r e = ready ++ line,    w is after `ready`.
-/

set_option linter.unusedSectionVars false

namespace Xv6.Console
open Lib Function List

/-- the bytes that were taken, those that are committed and not yet taken, and the line that is being
edited. -/
structure Tty where
  read : List UInt8
  ready : List UInt8
  line : List UInt8

namespace Tty

/-- a byte at the end of the line; it may commit the line. -/
def put (T : Tty) (c : UInt8) : Tty :=
  if c = newline ∨ c = ctrlD ∨ T.ready.length + (T.line.length + 1) = INPUT_BUF then
    { T with ready := T.ready ++ (T.line ++ [c]), line := [] }
  else { T with line := T.line ++ [c] }

def type (T : Tty) (c : UInt8) : Tty :=
  if c ≠ 0 ∧ T.ready.length + T.line.length < INPUT_BUF then T.put (if c = cr then newline else c)
  else T

def key (T : Tty) (c : UInt8) : Tty :=
  if c = ctrlP then T
  else if c = ctrlU then { T with line := [] }
  else if c = ctrlH ∨ c = delete then { T with line := T.line.dropLast }
  else T.type c

/-- the first committed byte is taken. -/
def take (T : Tty) : Tty := { T with read := T.read ++ T.ready.take 1, ready := T.ready.drop 1 }

end Tty

/-! ## the ring shows the terminal -/

structure Shows (x : Input) (T : Tty) : Prop where
  r_lt : x.r < UINT
  e_lt : x.e < UINT
  ring : Ring.contents UINT x.buf x.r x.e = T.ready ++ T.line
  w_eq : x.w = (x.r + T.ready.length) % UINT
  size : T.ready.length + T.line.length ≤ INPUT_BUF
  /-- the line has no end yet. -/
  no_newline : newline ∉ T.line

namespace Shows
variable {x : Input} {T : Tty} {c : UInt8}

section
variable (h : Shows x T)
include h

lemma fill : Ring.fill UINT x.r x.e = T.ready.length + T.line.length := by
  have h1 := congrArg length h.ring
  rw [Ring.length_contents, length_append] at h1
  exact h1

lemma e_eq : x.e = (x.r + (T.ready.length + T.line.length)) % UINT := by
  rw [← h.fill]
  exact Ring.write_eq h.r_lt h.e_lt

lemma w_lt : x.w < UINT := by
  rw [h.w_eq]
  exact Nat.mod_lt _ (by decide)

lemma fill_w : Ring.fill UINT x.r x.w = T.ready.length := by
  have hs := h.size
  rw [h.w_eq]
  exact Ring.fill_add h.r_lt (Nat.lt_of_le_of_lt (by omega : _ ≤ INPUT_BUF) (by decide))

lemma ready_eq : Ring.contents UINT x.buf x.r x.w = T.ready := by
  rw [h.w_eq, Ring.contents_take h.r_lt (w := x.e) (by rw [h.fill]; omega), h.ring]
  exact take_left' rfl

lemma line_eq : Ring.contents UINT x.buf x.w x.e = T.line := by
  rw [h.w_eq, Ring.contents_drop (by decide) h.r_lt h.e_lt (by rw [h.fill]; omega), h.ring]
  exact drop_left' rfl

lemma fill_e : Ring.fill UINT x.w x.e = T.line.length := by
  rw [← Ring.length_contents (m := INPUT_BUF) x.buf, h.line_eq]

lemma e_ne_w : x.e ≠ x.w ↔ T.line ≠ [] := by
  have h1 := Ring.fill_eq_zero h.w_lt h.e_lt
  rw [h.fill_e, length_eq_zero_iff] at h1
  rw [Ne, Ne, h1]
  exact ⟨fun h2 h3 => h2 h3.symm, fun h2 h3 => h2 h3.symm⟩

lemma r_eq_w : x.r = x.w ↔ T.ready = [] := by
  rw [← Ring.fill_eq_zero h.r_lt h.w_lt, h.fill_w, length_eq_zero_iff]

lemma last_eq (hl : T.line ≠ []) : x.last = (x.r + (T.ready.length + (T.line.length - 1))) % UINT := by
  have hpos : 0 < T.line.length := length_pos_iff.mpr hl
  have h1 : UINT - 1 + (x.r + (T.ready.length + T.line.length)) =
      x.r + (T.ready.length + (T.line.length - 1)) + UINT := by
    have hU : 1 ≤ UINT := by decide
    omega
  unfold Input.last
  rw [h.e_eq, Nat.add_mod_mod, h1, Nat.add_mod_right]

lemma erase (hl : T.line ≠ []) : Shows x.erase { T with line := T.line.dropLast } := by
  have hpos : 0 < T.line.length := length_pos_iff.mpr hl
  have hs := h.size
  have he : x.last < UINT := Nat.mod_lt _ (by decide)
  refine ⟨h.r_lt, he, ?_, h.w_eq, ?_, fun hn => ?_⟩
  · show Ring.contents UINT x.buf x.r x.last = T.ready ++ T.line.dropLast
    rw [h.last_eq hl, Ring.contents_take h.r_lt (w := x.e) (by rw [h.fill]; omega), h.ring,
      take_length_add_append, dropLast_eq_take]
  · show T.ready.length + T.line.dropLast.length ≤ INPUT_BUF
    rw [length_dropLast]
    omega
  · exact h.no_newline (mem_of_mem_dropLast hn)

lemma get_last (hl : T.line ≠ []) : x.get x.last ∈ T.line := by
  have hpos : 0 < T.line.length := length_pos_iff.mpr hl
  have hplace : Ring.place INPUT_BUF x.last =
      Ring.place INPUT_BUF (x.r + (T.ready.length + (T.line.length - 1))) := by
    rw [h.last_eq hl]
    exact Ring.place_wrap (by decide) _ 0
  have h1 : (T.ready ++ T.line)[T.ready.length + (T.line.length - 1)]? = some (x.get x.last) := by
    unfold Input.get
    rw [hplace, ← h.ring]
    apply Ring.contents_getElem?
    rw [h.fill]
    omega
  rw [getElem?_append_right (Nat.le_add_right _ _)] at h1
  exact mem_of_getElem? h1

end

/-- `C('U')` empties the line: the loop ends at `input.w`, since no newline is before it. -/
theorem killLine (k : Nat) : ∀ {x : Input} {T : Tty}, Shows x T → T.line.length ≤ k →
    Shows (x.killLine k) { T with line := [] } := by
  induction k with
  | zero =>
    intro x T h hk
    have hl : T.line = [] := length_eq_zero_iff.mp (Nat.le_zero.mp hk)
    rw [← hl]
    exact h
  | succ k ih =>
    intro x T h hk
    unfold Input.killLine
    by_cases hl : T.line = []
    · rw [if_neg fun hx => h.e_ne_w.mp hx.1 hl, ← hl]
      exact h
    · have hlast : x.get x.last ≠ newline := fun hn => h.no_newline (hn ▸ h.get_last hl)
      rw [if_pos ⟨h.e_ne_w.mpr hl, hlast⟩]
      apply ih (h.erase hl)
      rw [length_dropLast]
      omega

section
variable (h : Shows x T)
include h

section
variable (hroom : T.ready.length + T.line.length < INPUT_BUF)
include hroom

lemma put (c : UInt8) :
    (x.put c).e < UINT ∧ Ring.contents UINT (x.put c).buf x.r (x.put c).e = T.ready ++ (T.line ++ [c]) := by
  have he : (x.e + 1) % UINT < UINT := Nat.mod_lt _ (by decide)
  refine ⟨he, ?_⟩
  have h1 : Ring.contents UINT (x.put c).buf x.r (x.put c).e = Ring.contents UINT x.buf x.r x.e ++ [c] :=
    Ring.contents_push (by decide) (by decide) h.r_lt h.e_lt (by rw [h.fill]; exact hroom) c
  rw [h1, h.ring, append_assoc]

lemma full_iff (c : UInt8) :
    (x.put c).e = (x.r + INPUT_BUF) % UINT ↔ T.ready.length + (T.line.length + 1) = INPUT_BUF := by
  obtain ⟨he, hring⟩ := h.put hroom c
  have h1 := congrArg length hring
  rw [Ring.length_contents, length_append, length_append] at h1
  rw [← Ring.fill_eq_full (m := INPUT_BUF) (by decide) h.r_lt he, h1]
  rfl

lemma commits_iff (c : UInt8) :
    (x.put c).commits c = true ↔ c = newline ∨ c = ctrlD ∨ T.ready.length + (T.line.length + 1) = INPUT_BUF := by
  rw [← h.full_iff hroom c]
  exact decide_eq_true_iff

end

lemma type (c : UInt8) : Shows (x.type c).1 (T.type c) := by
  unfold Input.type Tty.type
  rw [h.fill]
  split
  · next hc =>
    generalize (if c = cr then newline else c) = c
    obtain ⟨he, hring⟩ := h.put hc.2 c
    have hcom := h.commits_iff hc.2 c
    have hroom := hc.2
    unfold Tty.put
    by_cases hcm : (x.put c).commits c = true
    · rw [if_pos hcm, if_pos (hcom.mp hcm)]
      refine ⟨h.r_lt, he, ?_, ?_, ?_, not_mem_nil⟩
      · rw [append_nil]
        exact hring
      · rw [← hring, Ring.length_contents]
        exact Ring.write_eq h.r_lt he
      · simp
        omega
    · rw [if_neg hcm, if_neg fun hn => hcm (hcom.mpr hn)]
      refine ⟨h.r_lt, he, hring, h.w_eq, ?_, fun hn => ?_⟩
      · simp
        omega
      · rcases mem_append.mp hn with hn | hn
        · exact h.no_newline hn
        · exact hcm (hcom.mpr (.inl (mem_singleton.mp hn).symm))
  · exact h

/-- **The ring does what the terminal does**, key by key. -/
theorem key (c : UInt8) : Shows (x.key c).1 (T.key c) := by
  unfold Input.key Tty.key
  split
  · exact h
  split
  · apply h.killLine
    have := h.size
    omega
  split
  · by_cases hl : T.line = []
    · rw [if_neg fun hx => h.e_ne_w.mp hx hl, hl]
      rw [dropLast_nil, ← hl]
      exact h
    · rw [if_pos (h.e_ne_w.mpr hl)]
      exact h.erase hl
  · exact h.type c

lemma take (hr : x.r ≠ x.w) :
    T.ready = x.get x.r :: T.take.ready ∧ Shows { x with r := (x.r + 1) % UINT } T.take := by
  have hne : x.r ≠ x.e := by
    intro he
    have h1 := (Ring.fill_eq_zero h.r_lt h.e_lt).mpr he
    rw [h.fill] at h1
    exact hr (h.r_eq_w.mpr (length_eq_zero_iff.mp (by omega)))
  obtain ⟨c, rest, hrest⟩ := exists_cons_of_ne_nil fun hn => hr (h.r_eq_w.mpr hn)
  have hpop : Ring.contents UINT x.buf x.r x.e = x.get x.r :: Ring.contents UINT x.buf ((x.r + 1) % UINT) x.e :=
    Ring.contents_pop (by decide) h.r_lt h.e_lt hne
  rw [h.ring, hrest, cons_append] at hpop
  have hc : c = x.get x.r := (cons.inj hpop).1
  have hsize := h.size
  have hw := h.w_eq
  rw [hrest, length_cons] at hsize hw
  have htake : T.take.ready = rest := by
    unfold Tty.take
    rw [hrest]
    rfl
  have hlt : (x.r + 1) % UINT < UINT := Nat.mod_lt _ (by decide)
  refine ⟨by rw [htake, ← hc, hrest], hlt, h.e_lt, ?_, ?_, ?_, h.no_newline⟩
  · rw [htake]
    exact (cons.inj hpop).2.symm
  · rw [htake]
    rw [hw, Nat.mod_add_mod, Nat.add_assoc, Nat.add_comm 1]
  · rw [htake]
    show rest.length + T.line.length ≤ INPUT_BUF
    omega

end

end Shows

/-! ## runs -/

variable {ι : Type} [DecidableEq ι] {s s' t : State ι} {a : Label ι} {p q : ι}
  {tr : Trace ι} {target n : Nat} {keys : List UInt8} {c : UInt8}

/-- the reader `p` finds a committed byte. -/
def State.finds (s : State ι) (n : Nat) : Prop := n ≠ 0 ∧ s.input.r ≠ s.input.w

instance : Decidable (s.finds n) := inferInstanceAs (Decidable (_ ∧ _))

/-- what a step does to the terminal: a key is handled, or a byte is taken. -/
inductive Event where
  | key (c : UInt8)
  | take
  | none

def Tty.after (T : Tty) : Event → Tty
  | .key c => T.key c
  | .take => T.take
  | .none => T

/-- a reader that finds `^D` after other bytes leaves it for the next reader. -/
def event (e : State ι × Label ι) : Event :=
  match e.2 with
  | .step p =>
    match e.1.pc p with
    | .loop (.intr (c :: _)) => .key c
    | .loop (.read target n) =>
      if e.1.finds n ∧ ¬ (e.1.input.get e.1.input.r = ctrlD ∧ n < target) then .take else .none
    | _ => .none
  | _ => .none

/-- the terminal after the steps of a run. -/
def tty (tr : Trace ι) : Tty := tr.foldl (fun T e => T.after (event e)) ⟨[], [], []⟩

/-- the byte that a step writes to the buffer of a reader: `*dst++ = c`. -/
def deliveredAt (e : State ι × Label ι) : Option UInt8 :=
  match e.2 with
  | .step p =>
    match e.1.pc p with
    | .loop (.read _ n) =>
      if e.1.finds n ∧ e.1.input.get e.1.input.r ≠ ctrlD then some (e.1.input.get e.1.input.r) else none
    | _ => none
  | _ => none

def delivered (tr : Trace ι) : List UInt8 := tr.filterMap deliveredAt

/-- a read of positive length finds `^D`, and has no byte yet. -/
def eofAt (e : State ι × Label ι) : Bool :=
  match e.2 with
  | .step p =>
    match e.1.pc p with
    | .loop (.read target n) => e.1.finds n ∧ n = target ∧ e.1.input.get e.1.input.r = ctrlD
    | _ => false
  | _ => false

def Pc.holds : Pc → Bool
  | .loop _ | .wakeup _ | .leave _ => true
  | _ => false

/-- a read has delivered no more than it was asked for. -/
def Pc.within : Pc → Prop
  | .enter (.read target n) | .loop (.read target n) | .asleep target n | .ready target n => n ≤ target
  | _ => True

structure Books (tr : Trace ι) (s : State ι) : Prop where
  locked : Mutex s.lock Pc.holds s.pc
  within : ∀ p, (s.pc p).within
  shows : Shows s.input (tty tr)
  delivered : delivered tr = (tty tr).read.filter (· ≠ ctrlD)
  eofs : (tty tr).read.count ctrlD = tr.countP eofAt

section
variable (tr : Trace ι) (e : State ι × Label ι)

lemma tty_concat : tty (tr ++ [e]) = (tty tr).after (event e) := by
  simp [tty]

lemma delivered_concat :
    Console.delivered (tr ++ [e]) = Console.delivered tr ++ (deliveredAt e).toList := filterMap_concat ..

end

lemma within_update {k : Pc} (h : ∀ p, (s.pc p).within) (hk : k.within) (q : ι) : (update s.pc p k q).within := by
  by_cases hq : q = p
  · rw [hq, update_self]
    exact hk
  · rw [update_of_ne hq]
    exact h q

@[simp] lemma Pc.rouse_holds (pc : Pc) : pc.rouse.holds = pc.holds := by cases pc <;> rfl

lemma Pc.rouse_within {pc : Pc} (h : pc.within) : pc.rouse.within := by cases pc <;> exact h

lemma Books.still (h : Books tr s) (hl : Mutex s'.lock Pc.holds s'.pc) (hw : ∀ p, (s'.pc p).within)
    (hi : s'.input = s.input) (he : event (s, a) = .none) (hd : deliveredAt (s, a) = none)
    (hf : eofAt (s, a) = false) : Books (tr ++ [(s, a)]) s' := by
  refine ⟨hl, hw, ?_, ?_, ?_⟩
  · rw [tty_concat, he, hi]
    exact h.shows
  · rw [tty_concat, delivered_concat, he, hd, h.delivered]
    exact append_nil _
  · rw [tty_concat, countP_concat, he, hf]
    exact h.eofs

lemma Tty.put_read (T : Tty) (c : UInt8) : (T.put c).read = T.read := by
  unfold Tty.put
  split <;> rfl

lemma Tty.key_read (T : Tty) (c : UInt8) : (T.key c).read = T.read := by
  unfold Tty.key Tty.type
  split
  · rfl
  split
  · rfl
  split
  · rfl
  split
  · exact T.put_read _
  · rfl

/-- where a step does nothing to the terminal. -/
def Pc.quiet : Pc → Bool
  | .loop (.intr (_ :: _)) | .loop (.read _ _) => false
  | _ => true

section
variable (h : Books tr s)
include h

lemma Books.pass (hp : (s.pc p).quiet = true) (hl : Mutex s'.lock Pc.holds s'.pc)
    (hw : ∀ p, (s'.pc p).within) (hi : s'.input = s.input) : Books (tr ++ [(s, .step p)]) s' := by
  refine h.still hl hw hi ?_ ?_ ?_
  · unfold event
    dsimp only
    split
    · next hc => rw [hc] at hp; cases hp
    · next hc => rw [hc] at hp; cases hp
    · rfl
  · unfold deliveredAt
    dsimp only
    split
    · next hc => rw [hc] at hp; cases hp
    · rfl
  · unfold eofAt
    dsimp only
    split
    · next hc => rw [hc] at hp; cases hp
    · rfl

lemma Books.key (hp : s.pc p = .loop (.intr (c :: keys))) : Books (tr ++ [(s, .step p)]) (intrTurn s p c keys) := by
  have he : event (s, .step p) = .key c := by simp [event, hp]
  have hd : deliveredAt (s, .step p) = none := by simp [deliveredAt, hp]
  have hf : eofAt (s, .step p) = false := by simp [eofAt, hp]
  refine ⟨?_, ?_, ?_, ?_, ?_⟩
  · apply h.locked.move
    rw [hp]
    split <;> rfl
  · apply within_update h.within
    split <;> trivial
  · rw [tty_concat, he]
    exact h.shows.key c
  · rw [tty_concat, delivered_concat, he, hd]
    show Console.delivered tr ++ [] = ((tty tr).key c).read.filter (· ≠ ctrlD)
    rw [Tty.key_read, append_nil, h.delivered]
  · rw [tty_concat, countP_concat, he, hf]
    show ((tty tr).key c).read.count ctrlD = _
    rw [Tty.key_read]
    exact h.eofs

lemma Books.take {k : Pc} (hr : s.input.r ≠ s.input.w) (hk : k.within)
    (hh : k.holds = (s.pc p).holds) (he : event (s, .step p) = .take)
    (hd : deliveredAt (s, .step p) =
      if s.input.get s.input.r = ctrlD then none else some (s.input.get s.input.r))
    (hf : eofAt (s, .step p) = decide (s.input.get s.input.r = ctrlD)) :
    Books (tr ++ [(s, .step p)]) { s.goto p k with input := { s.input with r := (s.input.r + 1) % UINT } } := by
  obtain ⟨hready, hshows⟩ := h.shows.take hr
  have hread : (tty tr).take.read = (tty tr).read ++ [s.input.get s.input.r] := by
    show (tty tr).read ++ (tty tr).ready.take 1 = _
    rw [hready]
    rfl
  refine ⟨h.locked.move hh, within_update h.within hk, ?_, ?_, ?_⟩
  · rw [tty_concat, he]
    exact hshows
  · rw [tty_concat, delivered_concat, he, hd]
    show _ = (tty tr).take.read.filter (· ≠ ctrlD)
    rw [hread, filter_append, h.delivered]
    congr 1
    by_cases hc : s.input.get s.input.r = ctrlD <;> simp [hc]
  · rw [tty_concat, countP_concat, he, hf]
    show (tty tr).take.read.count ctrlD = _
    rw [hread, count_append, h.eofs]
    by_cases hc : s.input.get s.input.r = ctrlD <;> simp [hc]

lemma Books.read (hp : s.pc p = .loop (.read target n)) : Books (tr ++ [(s, .step p)]) (readTurn s p target n) := by
  have hle : n ≤ target := by
    have := h.within p
    rw [hp] at this
    exact this
  have hheld : (s.pc p).holds = true := by rw [hp]; rfl
  -- nothing is taken, and the lock is kept
  have stay : ∀ {r : Int}, ¬ (s.finds n ∧ ¬ (s.input.get s.input.r = ctrlD ∧ n < target)) →
      Books (tr ++ [(s, .step p)]) (s.goto p (.leave r)) := by
    intro r hno
    refine h.still (h.locked.move (by rw [hheld]; rfl)) (within_update h.within trivial) rfl ?_ ?_ ?_
    · simp only [event, hp, if_neg hno]
    · simp only [deliveredAt, hp]
      exact if_neg fun hx => hno ⟨hx.1, fun hy => hx.2 hy.1⟩
    · simp only [eofAt, hp]
      exact decide_eq_false fun hx => hno ⟨hx.1, fun hy => Nat.lt_irrefl n (hx.2.1 ▸ hy.2)⟩
  unfold readTurn
  split
  · next h0 => exact stay fun hx => hx.1.1 h0
  next h0 =>
  split
  · next hrw =>
    split
    · exact stay fun hx => hx.1.2 hrw
    · refine h.still (h.locked.give hheld rfl) (within_update h.within hle) rfl ?_ ?_ ?_
      · simp [event, hp, State.finds, hrw]
      · simp [deliveredAt, hp, State.finds, hrw]
      · simp [eofAt, hp, State.finds, hrw]
  next hrw =>
  split
  · next hc =>
    split
    · next hlt => exact stay fun hx => hx.2 ⟨hc, hlt⟩
    · next hlt =>
      have hn : n = target := by omega
      refine h.take hrw trivial (by rw [hheld]; rfl) ?_ ?_ ?_
      · simp [event, hp, State.finds, h0, hrw, hlt]
      · simp [deliveredAt, hp, hc]
      · simp [eofAt, hp, State.finds, hrw, hc, hn]
        omega
  · next hc =>
    refine h.take hrw ?_ ?_ ?_ ?_ ?_
    · unfold gave
      split
      · trivial
      · show n - 1 ≤ target
        omega
    · rw [hheld]
      unfold gave
      split <;> rfl
    · simp [event, hp, State.finds, h0, hrw, hc]
    · simp [deliveredAt, hp, State.finds, h0, hrw, hc]
    · simp [eofAt, hp, hc]

lemma Books.turn (hs : turn s p = .ok s') : Books (tr ++ [(s, .step p)]) s' := by
  unfold Console.turn at hs
  have hwithin := h.within p
  split at hs
  · cases hs
  · next o hp =>
    split at hs
    · next hl =>
      cases hs
      refine h.pass (by rw [hp]; rfl) (h.locked.take hl rfl) (within_update h.within ?_) rfl
      rw [hp] at hwithin
      cases o <;> exact hwithin
    · cases hs
  · next hp =>
    cases hs
    exact h.pass (by rw [hp]; rfl) (h.locked.give (by rw [hp]; rfl) rfl) (within_update h.within trivial) rfl
  · next c keys hp =>
    cases hs
    exact h.key hp
  · next target n hp =>
    cases hs
    exact h.read hp
  · next keys hp =>
    cases hs
    have hl : Mutex s.lock Pc.holds fun q => (s.pc q).rouse := h.locked.congr fun q => Pc.rouse_holds _
    refine h.pass (by rw [hp]; rfl) (hl.move (by rw [hp]; rfl)) (fun q => ?_) rfl
    by_cases hq : q = p
    · simp only [hq, update_self]
      trivial
    · simp only [update_of_ne hq]
      exact Pc.rouse_within (h.within q)
  · cases hs
  · next target n hp =>
    cases hs
    rw [hp] at hwithin
    exact h.pass (by rw [hp]; rfl) (h.locked.move (by rw [hp]; rfl)) (within_update h.within hwithin) rfl
  · next r hp =>
    cases hs
    exact h.pass (by rw [hp]; rfl) (h.locked.give (by rw [hp]; rfl) rfl) (within_update h.within trivial) rfl

theorem Books.step (hs : step s a = .ok s') : Books (tr ++ [(s, a)]) s' := by
  cases a with
  | intr =>
    unfold Console.step at hs
    dsimp only at hs
    split at hs
    · next hp =>
      cases hs
      exact h.still (h.locked.move (by rw [hp]; rfl)) (within_update h.within trivial) rfl rfl rfl rfl
    · cases hs
  | read p n =>
    unfold Console.step at hs
    dsimp only at hs
    split at hs
    · next hp =>
      cases hs
      exact h.still (h.locked.move (by rw [hp]; rfl)) (within_update h.within (Nat.le_refl n)) rfl rfl rfl rfl
    · cases hs
  | step => exact h.turn hs
  | kill p =>
    cases hs
    exact h.still (h.locked.move (Pc.rouse_holds _)) (within_update h.within (Pc.rouse_within (h.within p)))
      rfl rfl rfl rfl

end

lemma Books.boot (killed : ι → Bool) : Books [] (State.boot killed) := by
  refine ⟨fun q => ⟨fun h => (by cases h), fun h => (by cases h)⟩, fun p => trivial, ?_, rfl, rfl⟩
  have hfill : Ring.fill UINT 0 0 = 0 := (Ring.fill_eq_zero (by decide) (by decide)).mpr rfl
  have hpos : 0 < UINT := by decide
  refine ⟨hpos, hpos, ?_, rfl, Nat.zero_le _, not_mem_nil⟩
  apply length_eq_zero_iff.mp
  rw [Ring.length_contents]
  exact hfill

lemma Path.books {killed : ι → Bool} (h : Path Console.step (State.boot killed) tr t) : Books tr t :=
  h.history (fun tr s => Books tr s) (.boot killed) fun _ _ _ _ _ hb hs => hb.step hs

/-- **The line discipline.** After any steps of interrupt handlers and readers, and however often the
indices have wrapped: `w` is ahead of `r` and `e` ahead of `w`, together by at most `INPUT_BUF`; the
ring holds the committed bytes that nobody has taken, and the line; the readers were given, in
order, the committed bytes that were taken, without the `^D`s; each of these was taken by one read of
positive length that had no byte yet; and a reader that finds `^D` ends, with 0 if it takes it, and
else leaves it there. -/
theorem console_line_discipline {killed : ι → Bool} (h : Path Console.step (State.boot killed) tr t) :
    (t.input.r < UINT ∧ t.input.w < UINT ∧ t.input.e < UINT) ∧
    Ring.fill UINT t.input.r t.input.w + Ring.fill UINT t.input.w t.input.e ≤ INPUT_BUF ∧
    Ring.contents UINT t.input.buf t.input.r t.input.w = (tty tr).ready ∧
    Ring.contents UINT t.input.buf t.input.w t.input.e = (tty tr).line ∧
    delivered tr = (tty tr).read.filter (· ≠ ctrlD) ∧
    (tty tr).read.count ctrlD = tr.countP eofAt ∧
    (∀ p target n, t.pc p = .loop (.read target n) → t.finds n → t.input.get t.input.r = ctrlD →
      ∃ t', Console.step t (.step p) = .ok t' ∧ t'.pc p = .leave (target - n) ∧
        (n = target ∧ t'.input = { t.input with r := (t.input.r + 1) % UINT } ∨ n < target ∧ t'.input = t.input)) ∧
    ∀ p q, (t.pc p).holds = true → (t.pc q).holds = true → p = q := by
  have hb := Path.books h
  have hs := hb.shows
  refine ⟨⟨hs.r_lt, hs.w_lt, hs.e_lt⟩, ?_, hs.ready_eq, hs.line_eq, hb.delivered, hb.eofs, ?_,
    fun p q hp hq => hb.locked.unique hp hq⟩
  · rw [hs.fill_w, hs.fill_e]
    exact hs.size
  · intro p target n hp hf hc
    have hle := hb.within p
    rw [hp] at hle
    replace hle : n ≤ target := hle
    refine ⟨readTurn t p target n, ?_, ?_⟩
    · unfold Console.step Console.turn
      dsimp only
      rw [hp]
    · unfold readTurn
      rw [if_neg hf.1, if_neg hf.2, if_pos hc]
      split
      · next hlt => exact ⟨update_self .., .inr ⟨hlt, rfl⟩⟩
      · next hlt => exact ⟨update_self .., .inl ⟨by omega, rfl⟩⟩

/-- "ab", a backspace, "c", a newline and `^D` are typed; one read gets "ac" with its newline, the
next one gets nothing. -/
theorem console_line_discipline_ac : ∃ tr t,
    Path Console.step (State.boot fun _ : Bool => false) tr t ∧ t.pc true = .leave 0 ∧
      delivered tr = [97, 99, 10] ∧ tr.countP eofAt = 1 ∧
      delivered tr = (tty tr).read.filter (· ≠ ctrlD) := by
  obtain ⟨tr, t, h, ht⟩ : ∃ tr t, Path Console.step (State.boot fun _ : Bool => false) tr t ∧
      t.pc true = .leave 0 ∧ delivered tr = [97, 99, 10] ∧ tr.countP eofAt = 1 := Path.of_labels
    (.intr false [97, 98, ctrlH, 99, newline, ctrlD] :: replicate 10 (.step false) ++
      .read true 10 :: replicate 5 (.step true) ++ .read true 10 :: replicate 2 (.step true))
    (by decide +kernel)
  exact ⟨tr, t, h, ht.1, ht.2.1, ht.2.2, (console_line_discipline h).2.2.2.2.1⟩

end Xv6.Console
