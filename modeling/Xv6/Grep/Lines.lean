import Xv6.Grep.Match

/-!
# The loop of `grep`

`buf` is the whole array, of which the first `m` characters are input. What `read` returns is given: a list of pieces,
one for each call (`Served`: each is at most as long as the call asks for).

A piece without a newline sets `m` to 0, and what was read of its line is lost: `grep_right_iff`.
-/

namespace Xv6.Grep
open List

abbrev NUL : Char := '\x00'
abbrev BUFSIZE : Nat := 1024

/-! ## the code -/

/-- `strchr(s, c)`: how far away the first `c` is. -/
def strchr (c : Char) : List Char → Option Nat
  | [] => none
  | x :: s => if x = NUL then none else if x = c then some 0 else (strchr c s).map (· + 1)

/-- the characters of a C string. -/
def cstr (s : List Char) : List Char := s.takeWhile (· ≠ NUL)

/-- `memmove(buf, buf + p, n)`, from turn `i` on. -/
def memmove (p : Nat) : Nat → Nat → List Char → List Char
  | 0, _, buf => buf
  | n + 1, i, buf => memmove p n (i + 1) (buf.set i (buf.getD (p + i) NUL))

/-- the inner loop, with what it writes; `fuel` bounds its turns. -/
def lines (re : List Char) : Nat → List Char → Nat → List (List Char) × List Char × Nat
  | 0, buf, p => ([], buf, p)
  | fuel + 1, buf, p =>
    match strchr '\n' (buf.drop p) with
    | none => ([], buf, p)
    | some k =>
      -- `q` is `p + k`
      let buf := buf.set (p + k) NUL
      if match_ re (cstr (buf.drop p)) then
        let buf := buf.set (p + k) '\n'
        let (out, r) := lines re fuel buf (p + k + 1)
        ((buf.drop p).take (k + 1) :: out, r)
      else lines re fuel buf (p + k + 1)

/-- the outer loop; it ends when `read` returns 0. -/
def grepLoop (re : List Char) : List (List Char) → List Char → Nat → List (List Char)
  | [], _, _ => []
  | piece :: pieces, buf, m =>
    let buf := (buf.take m ++ piece ++ buf.drop (m + piece.length)).set (m + piece.length) NUL
    let (out, buf, p) := lines re BUFSIZE buf 0
    if p = 0 then out ++ grepLoop re pieces buf 0
    else out ++ grepLoop re pieces (memmove p (m + piece.length - p) 0 buf) (m + piece.length - p)

/-- `grep(pattern, fd)`; the array is static, and has what was left in it. -/
def grep (re : List Char) (pieces : List (List Char)) (buf : List Char) : List (List Char) := grepLoop re pieces buf 0

/-! ## lines -/

/-- lines, each with its newline. -/
def text (ls : List (List Char)) : List Char := ls.flatMap (· ++ ['\n'])

/-- the lines of a text, and what is after the last newline. -/
def cut : List Char → List (List Char) × List Char
  | [] => ([], [])
  | x :: d =>
    if x = '\n' then ([] :: (cut d).1, (cut d).2)
    else match (cut d).1 with
      | [] => ([], x :: (cut d).2)
      | l :: ls => ((x :: l) :: ls, (cut d).2)

lemma text_cut (d : List Char) : text (cut d).1 ++ (cut d).2 = d := by
  induction d with
  | nil => rfl
  | cons x d ih =>
    unfold cut
    split
    · next hx =>
      rw [hx]
      exact congrArg ('\n' :: ·) ih
    · split
      · next h =>
        rw [h] at ih
        exact congrArg (x :: ·) ih
      · next l ls h =>
        rw [h] at ih
        exact congrArg (x :: ·) ih

lemma cut_line {l d : List Char} (h : '\n' ∉ l) : cut (l ++ '\n' :: d) = (l :: (cut d).1, (cut d).2) := by
  induction l with
  | nil => simp [cut]
  | cons x l ih =>
    obtain ⟨hx, hl⟩ := not_or.mp (mt mem_cons.mpr h)
    simp [cut, Ne.symm hx, ih hl]

lemma cut_tail {t : List Char} (h : '\n' ∉ t) : cut t = ([], t) := by
  induction t with
  | nil => rfl
  | cons x t ih =>
    obtain ⟨hx, ht⟩ := not_or.mp (mt mem_cons.mpr h)
    simp [cut, Ne.symm hx, ih ht]

lemma cut_spec (d : List Char) : (∀ l ∈ (cut d).1, '\n' ∉ l) ∧ '\n' ∉ (cut d).2 := by
  induction d with
  | nil => simp [cut]
  | cons x d ih =>
    unfold cut
    split
    · simpa using ih
    · next hx =>
      split
      · next h => simpa [Ne.symm hx] using ih.2
      · next l ls h =>
        rw [h] at ih
        simpa [Ne.symm hx] using ih

lemma cut_text_append {ls : List (List Char)} (h : ∀ l ∈ ls, '\n' ∉ l) (d : List Char) :
    cut (text ls ++ d) = (ls ++ (cut d).1, (cut d).2) := by
  induction ls with
  | nil => rfl
  | cons l ls ih =>
    have e : text (l :: ls) ++ d = l ++ '\n' :: (text ls ++ d) := by simp [text]
    rw [e, cut_line (h l mem_cons_self), ih fun x hx => h x (mem_cons_of_mem l hx)]
    rfl

lemma cut_append (a b : List Char) :
    cut (a ++ b) = ((cut a).1 ++ (cut ((cut a).2 ++ b)).1, (cut ((cut a).2 ++ b)).2) := by
  have h := cut_text_append (cut_spec a).1 ((cut a).2 ++ b)
  rwa [← append_assoc, text_cut] at h

/-! ## one turn -/

variable {re buf junk t l : List Char} {p n m : Nat} {d : List Char}

lemma strchr_none (hn : '\n' ∉ t) : strchr '\n' (t ++ NUL :: junk) = none := by
  induction t with
  | nil => simp [strchr]
  | cons x t ih =>
    obtain ⟨hx, ht⟩ := not_or.mp (mt mem_cons.mpr hn)
    simp [strchr, Ne.symm hx, ih ht]

lemma strchr_line (hn : '\n' ∉ l) (h0 : NUL ∉ l) : strchr '\n' (l ++ '\n' :: junk) = some l.length := by
  induction l with
  | nil => simp [strchr, show '\n' ≠ NUL by decide]
  | cons x l ih =>
    obtain ⟨hx, hl⟩ := not_or.mp (mt mem_cons.mpr hn)
    obtain ⟨hx0, hl0⟩ := not_or.mp (mt mem_cons.mpr h0)
    simp [strchr, Ne.symm hx, Ne.symm hx0, ih hl hl0]

lemma cstr_line (h0 : NUL ∉ l) : cstr (l ++ NUL :: junk) = l := by
  induction l with
  | nil => simp [cstr]
  | cons x l ih =>
    obtain ⟨hx, hl⟩ := not_or.mp (mt mem_cons.mpr h0)
    have := ih hl
    simp_all [cstr, Ne.symm hx]

lemma drop_set_after {x : Char} {q : Nat} (h : q < p) : (buf.set q x).drop p = buf.drop p := by
  rw [drop_set, if_pos h]

variable (re) in
/-- **The inner loop** writes the lines that match, and stops at what is after the last newline. -/
theorem lines_spec (ls : List (List Char)) (hls : ∀ l ∈ ls, '\n' ∉ l ∧ NUL ∉ l) (ht : '\n' ∉ t) :
    ∀ fuel buf p, ls.length < fuel → buf.drop p = text ls ++ (t ++ NUL :: junk) →
      ∃ buf', lines re fuel buf p = ((ls.filter (match_ re)).map (· ++ ['\n']), buf', p + (text ls).length) ∧
        buf'.drop (p + (text ls).length) = t ++ NUL :: junk ∧ buf'.length = buf.length := by
  induction ls with
  | nil =>
    intro fuel buf p hf hb
    rcases fuel with _ | fuel
    · omega
    refine ⟨buf, ?_, hb, rfl⟩
    have hb : buf.drop p = t ++ NUL :: junk := hb
    simp [lines, hb, strchr_none ht, text]
  | cons l ls ih =>
    intro fuel buf p hf hb
    rcases fuel with _ | fuel
    · omega
    obtain ⟨hn, h0⟩ := hls l mem_cons_self
    have hb : buf.drop p = l ++ '\n' :: (text ls ++ (t ++ NUL :: junk)) := by
      rw [hb]
      simp [text]
    have hlen : (text (l :: ls)).length = l.length + 1 + (text ls).length := by
      simp only [text, flatMap_cons, length_append, length_singleton]
    -- the line, with `q` set to 0 and set back
    have hset : ∀ x, (buf.set (p + l.length) x).drop p = l ++ x :: (text ls ++ (t ++ NUL :: junk)) := by
      intro x
      rw [drop_set, if_neg (by omega), hb, Nat.add_sub_cancel_left]
      simp
    have hrest : ∀ b : List Char, (∀ q, p + l.length < q → b.drop q = buf.drop q) →
        b.drop (p + l.length + 1) = text ls ++ (t ++ NUL :: junk) := by
      intro b hbq
      rw [hbq _ (by omega), Nat.add_assoc, ← drop_drop, hb]
      simp
    have hrec : ∀ b : List Char, (∀ q, p + l.length < q → b.drop q = buf.drop q) → b.length = buf.length →
        ∃ buf', lines re fuel b (p + l.length + 1) =
            ((ls.filter (match_ re)).map (· ++ ['\n']), buf', p + (text (l :: ls)).length) ∧
          buf'.drop (p + (text (l :: ls)).length) = t ++ NUL :: junk ∧ buf'.length = buf.length := by
      intro b hbq hbl
      obtain ⟨buf', h1, h2, h3⟩ := ih (fun x hx => hls x (mem_cons_of_mem l hx)) fuel b (p + l.length + 1)
        (by simp at hf; omega) (hrest b hbq)
      have e : p + (text (l :: ls)).length = p + l.length + 1 + (text ls).length := by omega
      rw [e]
      exact ⟨buf', h1, h2, h3.trans hbl⟩
    unfold lines
    rw [hb, strchr_line hn h0]
    dsimp only
    rw [hset NUL, cstr_line h0]
    by_cases hm : match_ re l = true
    · obtain ⟨buf', h1, h2, h3⟩ := hrec ((buf.set (p + l.length) NUL).set (p + l.length) '\n')
        (fun q hq => by rw [drop_set_after hq, drop_set_after hq]) (by simp)
      refine ⟨buf', ?_, h2, h3⟩
      rw [if_pos hm, h1, set_set, hset, take_length_add_append]
      simp [hm]
    · obtain ⟨buf', h1, h2, h3⟩ := hrec (buf.set (p + l.length) NUL) (fun q hq => drop_set_after hq) (by simp)
      refine ⟨buf', ?_, h2, h3⟩
      rw [if_neg hm, h1]
      simp [hm]

lemma memmove_spec : ∀ n i (buf : List Char), p + i + n ≤ buf.length →
    (memmove p n i buf).take (i + n) = buf.take i ++ (buf.drop (p + i)).take n ∧
      (memmove p n i buf).length = buf.length := by
  intro n
  induction n with
  | zero => simp [memmove]
  | succ n ih =>
    intro i buf h
    have hi : p + i < buf.length := by omega
    obtain ⟨h1, h2⟩ := ih (i + 1) (buf.set i (buf.getD (p + i) NUL)) (by simp; omega)
    have hset : (buf.set i (buf.getD (p + i) NUL)).take (i + 1) = buf.take i ++ [buf.getD (p + i) NUL] := by
      rw [take_add_one, getElem?_set_self (by omega), take_set_of_le (Nat.le_refl i)]
      rfl
    have hdrop : (buf.drop (p + i)).take (n + 1) = buf.getD (p + i) NUL :: (buf.drop (p + (i + 1))).take n := by
      rw [drop_eq_getElem_cons hi, take_succ_cons, getD_eq_getElem?_getD, getElem?_eq_getElem hi, Nat.add_assoc]
      rfl
    refine ⟨?_, h2.trans length_set⟩
    rw [show i + (n + 1) = i + 1 + n by omega, hdrop]
    unfold memmove
    rw [h1, hset, drop_set_after (by omega), append_assoc]
    rfl

/-! ## all turns -/

/-- the lines of `d` that are written. -/
def written (re d : List Char) : List (List Char) := ((cut d).1.filter (match_ re)).map (· ++ ['\n'])

/-- what a turn leaves in the buffer. -/
def kept (d : List Char) : List Char := if (cut d).1 = [] then [] else (cut d).2

/-- the pieces are not empty and no longer than `read` was asked for; `carry` is in the buffer. -/
def Served : List Char → List (List Char) → Prop
  | _, [] => True
  | carry, piece :: pieces =>
    piece ≠ [] ∧ piece.length ≤ BUFSIZE - carry.length - 1 ∧ Served (kept (carry ++ piece)) pieces

variable {carry piece : List Char} {pieces : List (List Char)}

lemma Served.ne_nil (h : Served carry pieces) : ∀ q ∈ pieces, q ≠ [] := by
  induction pieces generalizing carry with
  | nil => exact fun q hq => absurd hq not_mem_nil
  | cons piece pieces ih =>
    intro q hq
    rcases mem_cons.mp hq with rfl | hq
    · exact h.1
    · exact ih h.2.2 q hq

lemma length_text (ls : List (List Char)) : ls.length ≤ (text ls).length ∧ ((text ls).length = 0 → ls = []) := by
  induction ls with
  | nil => simp [text]
  | cons l ls =>
    have e : (text (l :: ls)).length = l.length + 1 + (text ls).length := by
      simp only [text, flatMap_cons, length_append, length_singleton]
    rw [e, length_cons]
    exact ⟨by omega, by omega⟩

variable (re pieces) in
/-- **One turn of the outer loop.** -/
theorem grepLoop_turn (hbuf : buf.length = BUFSIZE) (hc : buf.take carry.length = carry) (h0 : NUL ∉ carry ++ piece)
    (hlt : (carry ++ piece).length < BUFSIZE) : ∃ buf', buf'.length = BUFSIZE ∧
      buf'.take (kept (carry ++ piece)).length = kept (carry ++ piece) ∧
      grepLoop re (piece :: pieces) buf carry.length =
        written re (carry ++ piece) ++ grepLoop re pieces buf' (kept (carry ++ piece)).length := by
  generalize hd : carry ++ piece = d at h0 hlt ⊢
  have hdl : carry.length + piece.length = d.length := by rw [← hd, length_append]
  have hfill : (buf.take carry.length ++ piece ++ buf.drop d.length).set d.length NUL =
      text (cut d).1 ++ ((cut d).2 ++ NUL :: buf.drop (d.length + 1)) := by
    rw [hc, hd, ← append_assoc, text_cut, set_append_right _ _ (Nat.le_refl _), Nat.sub_self,
      drop_eq_getElem_cons (i := d.length) (by omega), set_cons_zero]
  have hls : ∀ l ∈ (cut d).1, '\n' ∉ l ∧ NUL ∉ l := by
    intro l hl
    refine ⟨(cut_spec d).1 l hl, fun hc => h0 ?_⟩
    rw [← text_cut d]
    exact mem_append_left _ (mem_flatMap.mpr ⟨l, hl, mem_append_left _ hc⟩)
  have hsum : (text (cut d).1).length + (cut d).2.length = d.length := by rw [← length_append, text_cut]
  obtain ⟨hle, hnil⟩ := length_text (cut d).1
  obtain ⟨b, h1, h2, h3⟩ := lines_spec re (cut d).1 hls (cut_spec d).2 BUFSIZE _ 0 (by omega) hfill
  rw [Nat.zero_add] at h1 h2
  have hb : b.length = BUFSIZE := by
    rw [h3, length_set, length_append, length_append, length_take, length_drop]
    omega
  unfold kept
  rw [grepLoop]
  dsimp only
  rw [hdl, h1]
  dsimp only
  by_cases hl : (cut d).1 = []
  · exact ⟨b, hb, by rw [if_pos hl]; rfl, by rw [if_pos (by rw [hl]; rfl), if_pos hl]; rfl⟩
  · have hm : d.length - (text (cut d).1).length = (cut d).2.length := by omega
    obtain ⟨g1, g2⟩ := memmove_spec (p := (text (cut d).1).length) (cut d).2.length 0 b (by omega)
    rw [if_neg fun e => hl (hnil e), if_neg hl, hm]
    refine ⟨_, g2.trans hb, ?_, rfl⟩
    rw [Nat.zero_add, Nat.add_zero, h2] at g1
    rw [g1]
    simp

/-- what all turns write. -/
def writes (re : List Char) : List Char → List (List Char) → List (List Char)
  | _, [] => []
  | carry, piece :: pieces => written re (carry ++ piece) ++ writes re (kept (carry ++ piece)) pieces

lemma kept_subset {x : Char} (h : x ∈ kept d) : x ∈ (cut d).2 ∧ x ∈ d := by
  unfold kept at h
  split at h
  · cases h
  · refine ⟨h, ?_⟩
    rw [← text_cut d]
    exact mem_append_right _ h

lemma grepLoop_eq (h0 : ∀ q ∈ pieces, NUL ∉ q) : ∀ carry (buf : List Char), buf.length = BUFSIZE →
    buf.take carry.length = carry → NUL ∉ carry → Served carry pieces →
      grepLoop re pieces buf carry.length = writes re carry pieces := by
  induction pieces with
  | nil => exact fun _ _ _ _ _ _ => rfl
  | cons piece pieces ih =>
    intro carry buf hbuf hc hcarry hs
    have hd : NUL ∉ carry ++ piece := by simp [hcarry, h0 piece mem_cons_self]
    have hpos := length_pos_of_ne_nil hs.1
    have hlen : carry.length ≤ BUFSIZE := by
      rw [← hc, length_take]
      omega
    have hle := hs.2.1
    obtain ⟨buf', h1, h2, h3⟩ := grepLoop_turn re pieces hbuf hc hd (by rw [length_append]; omega)
    rw [h3, ih (fun q hq => h0 q (mem_cons_of_mem piece hq)) _ buf' h1 h2 (fun hx => hd (kept_subset hx).2) hs.2.2]
    rfl

lemma cut_nil_iff : (cut d).1 = [] ↔ '\n' ∉ d := by
  constructor
  · intro h
    have e := text_cut d
    rw [h] at e
    rw [← e]
    exact (cut_spec d).2
  · exact fun h => by rw [cut_tail h]

lemma mem_of_cut (h : '\n' ∈ d) : (cut d).1 ≠ [] := fun e => cut_nil_iff.mp e h

lemma not_mem_kept (d : List Char) : '\n' ∉ kept d := fun h => (cut_spec d).2 (kept_subset h).1

lemma written_append (re d rest : List Char) :
    written re (d ++ rest) = written re d ++ written re ((cut d).2 ++ rest) := by
  unfold written
  rw [cut_append d rest, filter_append, map_append]

/-- every piece has a newline: the lines are found whole. -/
theorem writes_eq (h : ∀ q ∈ pieces, '\n' ∈ q) (hc : '\n' ∉ carry) :
    writes re carry pieces = written re (carry ++ pieces.flatten) := by
  induction pieces generalizing carry with
  | nil => simp [writes, written, cut_tail hc]
  | cons piece pieces ih =>
    have hne := mem_of_cut (mem_append_right carry (h piece mem_cons_self))
    have hk : kept (carry ++ piece) = (cut (carry ++ piece)).2 := if_neg hne
    unfold writes
    rw [ih (fun q hq => h q (mem_cons_of_mem piece hq)) (not_mem_kept _), flatten_cons, ← append_assoc,
      written_append re (carry ++ piece), hk]

lemma length_written (d : List Char) : (written [] d).flatten.length + (cut d).2.length = d.length := by
  have hall : ∀ l : List Char, match_ [] l = true := by
    intro l
    cases l <;> rfl
  have e : (written [] d).flatten = text (cut d).1 := by
    unfold written text
    rw [filter_eq_self.mpr fun l _ => hall l, flatMap_def]
  rw [e, ← length_append, text_cut]

/-- a piece without a newline is lost. -/
theorem length_writes (hne : ∀ q ∈ pieces, q ≠ []) (hc : '\n' ∉ carry) :
    (writes [] carry pieces).flatten.length ≤ carry.length + pieces.flatten.length ∧ ((∃ q ∈ pieces, '\n' ∉ q) →
      (writes [] carry pieces).flatten.length < carry.length + pieces.flatten.length) := by
  induction pieces generalizing carry with
  | nil => simp [writes]
  | cons piece pieces ih =>
    have hpos := length_pos_of_ne_nil (hne piece mem_cons_self)
    have hlen := length_written (carry ++ piece)
    obtain ⟨ih1, ih2⟩ := ih (fun q hq => hne q (mem_cons_of_mem piece hq)) (not_mem_kept (carry ++ piece))
    unfold writes
    rw [flatten_append, length_append, flatten_cons, length_append]
    rw [length_append] at hlen
    by_cases hp : '\n' ∈ piece
    · have hk : kept (carry ++ piece) = (cut (carry ++ piece)).2 := if_neg (mem_of_cut (mem_append_right _ hp))
      rw [hk] at ih1 ih2 ⊢
      refine ⟨by omega, ?_⟩
      rintro ⟨q, hq, hnq⟩
      rcases mem_cons.mp hq with rfl | hq
      · exact absurd hp hnq
      · have := ih2 ⟨q, hq, hnq⟩
        omega
    · have hk : kept (carry ++ piece) = [] := if_pos (cut_nil_iff.mpr (by simp [hc, hp]))
      have hw : (cut (carry ++ piece)).2 = carry ++ piece := by rw [cut_tail (by simp [hc, hp])]
      rw [hk] at ih1 ⊢
      rw [hw, length_append] at hlen
      rw [length_nil] at ih1
      exact ⟨by omega, fun _ => by omega⟩

/-! ## `grep` -/

/-- **When `grep` is right.** The input consists of the lines `ls`, and `read` cuts it into `pieces`. The right lines are
written, whatever the pattern, if and only if there is a newline in each piece. -/
theorem grep_right_iff (ls pieces : List (List Char)) (buf : List Char) (hls : ∀ l ∈ ls, '\n' ∉ l ∧ NUL ∉ l)
    (hflat : pieces.flatten = text ls) (hbuf : buf.length = BUFSIZE) (hs : Served [] pieces) :
    (∀ re, grep re pieces buf = (ls.filter (match_ re)).map (· ++ ['\n'])) ↔ ∀ q ∈ pieces, '\n' ∈ q := by
  have h0 : ∀ q ∈ pieces, NUL ∉ q := by
    intro q hq hc
    have hm : NUL ∈ text ls := hflat ▸ mem_flatten.mpr ⟨q, hq, hc⟩
    obtain ⟨l, hl, hx⟩ := mem_flatMap.mp hm
    rcases mem_append.mp hx with hx | hx
    · exact (hls l hl).2 hx
    · exact absurd (mem_singleton.mp hx) (by decide)
  have hcut : cut (text ls) = (ls, []) := by
    have := cut_text_append (fun l hl => (hls l hl).1) []
    simpa [cut] using this
  have hrun : ∀ re, grep re pieces buf = writes re [] pieces := fun re =>
    grepLoop_eq h0 [] buf hbuf rfl not_mem_nil hs
  have hw : ∀ re, written re pieces.flatten = (ls.filter (match_ re)).map (· ++ ['\n']) := by
    intro re
    unfold written
    rw [hflat, hcut]
  constructor
  · intro h
    by_contra hc
    simp only [not_forall, exists_prop] at hc
    have hlt := (length_writes hs.ne_nil not_mem_nil).2 hc
    have hlen := length_written pieces.flatten
    rw [hw, ← h, hrun, hflat, hcut] at hlen
    rw [hflat] at hlt
    simp at hlt hlen
    omega
  · intro h re
    rw [hrun, writes_eq h not_mem_nil, nil_append, hw]

/-- the array before the first `read`. -/
def zeros : List Char := replicate BUFSIZE NUL

lemma length_zeros : zeros.length = BUFSIZE := length_replicate

/-- two lines in two pieces, and the second line begins in the first piece. -/
theorem grep_right_iff_two : Served [] ["ab\nc".toList, "d\n".toList] ∧ ∀ re,
    grep re ["ab\nc".toList, "d\n".toList] zeros = (["ab".toList, "cd".toList].filter (match_ re)).map (· ++ ['\n']) := by
  have hs : Served [] ["ab\nc".toList, "d\n".toList] := ⟨by decide, by decide, by decide, by decide, trivial⟩
  exact ⟨hs, (grep_right_iff _ _ zeros (by decide) (by decide) length_zeros hs).mpr (by decide)⟩

/-- a line in two pieces: its first character is lost. -/
theorem grep_loses_piece : Served [] ["a".toList, "b\n".toList] ∧ match_ "a".toList "ab".toList = true ∧
    grep "a".toList ["a".toList, "b\n".toList] zeros = [] := by
  refine ⟨⟨by decide, by decide, by decide, by decide, trivial⟩, by decide, ?_⟩
  decide +kernel

end Xv6.Grep
