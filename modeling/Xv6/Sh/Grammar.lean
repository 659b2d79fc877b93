import Xv6.Sh.Parse
import Mathlib.Data.List.TakeWhile

/-!
# The grammar of the shell

    line   ::= pipe '&'* [';' line]
    pipe   ::= exec ['|' pipe]
    exec   ::= '(' line ')' redirs   |   redirs (word redirs)*        (fewer than MAXARGS words)
    redirs ::= (('<' | '>' | '>>') word)*

over the tokens of the text (`tokens`); `Gen X u c` says that `X` derives `u`, with the tree `c`.

`At t s ks`: from the position `s` on the tokens of the text are `ks`. In these terms `peek` looks at the first
token and `gettoken` takes it.
-/

namespace Xv6.Sh
open Lib List

inductive Op where
  | lt
  | gt
  | gtgt
  deriving DecidableEq

inductive Tok where
  | word (w : List Char)
  | redir (o : Op)
  | bar
  | amp
  | semi
  | lp
  | rp
  deriving DecidableEq

/-- the tokens of one character. -/
def sym (c : Char) : Option Tok :=
  if c = '<' then some (.redir .lt)
  else if c = '|' then some .bar
  else if c = '&' then some .amp
  else if c = ';' then some .semi
  else if c = '(' then some .lp
  else if c = ')' then some .rp
  else none

/-- whitespace separates tokens; `>>` and a word are as long as they can be. -/
def tokens : List Char → List Tok
  | [] => []
  | c :: cs =>
    if isWhite c then tokens cs
    else if c = '>' then
      if cs.head? = some '>' then .redir .gtgt :: tokens cs.tail else .redir .gt :: tokens cs
    else
      match sym c with
      | some k => k :: tokens cs
      | none => .word (c :: cs.takeWhile isWord) :: tokens (cs.dropWhile isWord)
termination_by cs => cs.length
decreasing_by
  · exact Nat.lt_succ_self _
  · rw [length_tail, length_cons]
    omega
  · exact Nat.lt_succ_self _
  · exact Nat.lt_succ_self _
  · exact Nat.lt_succ_of_le (dropWhile_sublist _).length_le

/-- a command with its words. -/
inductive Tree where
  | exec (args : List (List Char))
  | redir (cmd : Tree) (file : List Char) (mode fd : Nat)
  | pipe (left right : Tree)
  | list (left right : Tree)
  | back (cmd : Tree)
  deriving DecidableEq

structure Redir where
  op : Op
  file : List Char

/-- a redirection of standard input, or of standard output; `>>` is as `>`. -/
def Redir.put (c : Tree) (r : Redir) : Tree :=
  match r.op with
  | .lt => .redir c r.file O_RDONLY 0
  | .gt | .gtgt => .redir c r.file (O_WRONLY ||| O_CREATE) 1

/-- the last redirection is the outermost. -/
def wrap (rs : List Redir) (c : Tree) : Tree := rs.foldl Redir.put c

def redirToks (rs : List Redir) : List Tok := rs.flatMap fun r => [.redir r.op, .word r.file]

/-- words, each with the redirections that follow it. -/
def argToks (as : List (List Char × List Redir)) : List Tok :=
  as.flatMap fun a => .word a.1 :: redirToks a.2

def backs : Nat → Tree → Tree
  | 0, c => c
  | n + 1, c => backs n (.back c)

inductive Sym where
  | line
  | pipe
  | exec

inductive Gen : Sym → List Tok → Tree → Prop
  | exec (rs : List Redir) (as : List (List Char × List Redir)) (h : as.length < MAXARGS) :
      Gen .exec (redirToks rs ++ argToks as) (wrap (rs ++ as.flatMap Prod.snd) (.exec (as.map Prod.fst)))
  | block {u : List Tok} {c : Tree} (rs : List Redir) (h : Gen .line u c) :
      Gen .exec (.lp :: (u ++ .rp :: redirToks rs)) (wrap rs c)
  | one {u : List Tok} {c : Tree} (h : Gen .exec u c) : Gen .pipe u c
  | pipe {u v : List Tok} {c d : Tree} (h : Gen .exec u c) (h' : Gen .pipe v d) :
      Gen .pipe (u ++ .bar :: v) (.pipe c d)
  | line {u : List Tok} {c : Tree} (n : Nat) (h : Gen .pipe u c) :
      Gen .line (u ++ replicate n .amp) (backs n c)
  | list {u v : List Tok} {c d : Tree} (n : Nat) (h : Gen .pipe u c) (h' : Gen .line v d) :
      Gen .line (u ++ (replicate n .amp ++ .semi :: v)) (.list (backs n c) d)

/-! ## scanning -/

section
variable {t : List Char} {s : Nat} {ks : List Tok} {k : Tok} {f : Char → Bool} {l : List Char}
variable {c : Char} {cs : List Char}

lemma scan_eq (f : Char → Bool) (l : List Char) (s : Nat) : scan f l s = s + (l.takeWhile f).length := by
  induction l generalizing s with
  | nil => rfl
  | cons c l ih =>
    unfold scan
    by_cases hc : f c = true
    · rw [if_pos hc, ih, takeWhile_cons_of_pos hc, length_cons]
      omega
    · rw [if_neg hc, takeWhile_cons_of_neg hc]
      rfl

lemma drop_scan (f : Char → Bool) (t : List Char) (s : Nat) :
    t.drop (scan f (t.drop s) s) = (t.drop s).dropWhile f := by
  rw [scan_eq, ← drop_drop]
  generalize t.drop s = l
  have h : (l.takeWhile f ++ l.dropWhile f).drop (l.takeWhile f).length = l.dropWhile f := drop_left
  rw [takeWhile_append_dropWhile] at h
  exact h

lemma scan_le (hs : s ≤ t.length) (f : Char → Bool) : scan f (t.drop s) s ≤ t.length := by
  have h : ((t.drop s).takeWhile f).length ≤ (t.drop s).length := (takeWhile_sublist f).length_le
  rw [length_drop] at h
  rw [scan_eq]
  omega

lemma deref_cons (h : t.drop s = c :: cs) : deref t s = c := by
  have h1 : t[s]? = some c := by
    rw [← head?_drop, h]
    rfl
  unfold deref
  rw [getD_eq_getElem?_getD, h1]
  rfl

lemma deref_nil (h : t.drop s = []) : deref t s = NUL := by
  unfold deref
  rw [getD_eq_getElem?_getD, getElem?_eq_none (drop_eq_nil_iff.mp h)]
  rfl

lemma tokens_dropWhile (l : List Char) : tokens (l.dropWhile isWhite) = tokens l := by
  induction l with
  | nil => rfl
  | cons c l ih =>
    by_cases hc : isWhite c = true
    · rw [dropWhile_cons_of_pos hc, ih]
      conv_rhs => rw [tokens, if_pos hc]
    · rw [dropWhile_cons_of_neg hc]

lemma head_dropWhile (h : l.dropWhile f = c :: cs) : f c = false := by
  have h1 := head?_dropWhile_not f l
  rw [h] at h1
  simpa using h1

/-! ## the position in the tokens -/

/-- from `s` on the tokens are `ks`. -/
structure At (t : List Char) (s : Nat) (ks : List Tok) : Prop where
  le : s ≤ t.length
  eq : tokens (t.drop s) = ks

/-- the text from `q` to `e` is the word `w`, with its end there. -/
structure Word (t : List Char) (q e : Nat) (w : List Char) : Prop where
  text : t.drop q = w ++ t.drop e
  stop : e = q + w.length
  bound : e ≤ t.length
  chars : ∀ c ∈ w, isWord c = true
  last : ∀ c, t[e]? = some c → isWord c = false
  token : gettoken t q = .ok (⟨'a', q, e⟩, skip t e)

/-- what `gettoken` returns for a token. -/
def Tok.code : Tok → Char
  | .word _ => 'a'
  | .redir .lt => '<'
  | .redir .gt => '>'
  | .redir .gtgt => '+'
  | .bar => '|'
  | .amp => '&'
  | .semi => ';'
  | .lp => '('
  | .rp => ')'

/-- its first character; for a word it is no symbol. -/
def Tok.first : Tok → Char
  | .redir .gtgt => '>'
  | k => k.code

/-- the next token begins with one of these. -/
def starts (l : List Char) : List Tok → Bool
  | [] => false
  | k :: _ => k.first ∈ l

lemma At.skip (h : At t s ks) : At t (skip t s) ks := by
  refine ⟨scan_le h.le _, ?_⟩
  unfold Sh.skip
  rw [drop_scan, tokens_dropWhile]
  exact h.eq

lemma skip_cases (t : List Char) (s : Nat) :
    t.drop (skip t s) = [] ∨ ∃ c cs, t.drop (skip t s) = c :: cs ∧ isWhite c = false := by
  cases h : t.drop (skip t s) with
  | nil => exact .inl rfl
  | cons c cs =>
    have h1 := h
    unfold Sh.skip at h1
    rw [drop_scan] at h1
    exact .inr ⟨c, cs, rfl, head_dropWhile h1⟩

lemma isWord_false_of_mem (h : c ∈ symbols) : isWord c = false := by
  simp [isWord, h]

lemma sym_none (hw : isWhite c = false) (hg : c ≠ '>') (hs : sym c = none) : isWord c = true := by
  unfold sym at hs
  split_ifs at hs with h1 h2 h3 h4 h5 h6
  simp only [isWhite, decide_eq_false_iff_not] at hw
  simp [isWord, hw, symbols, h1, h2, h3, h4, h5, h6, hg]

lemma sym_some (hs : sym c = some k) :
    c ∈ ['|', '(', ')', ';', '&', '<'] ∧ k.code = c ∧ k.first = c ∧ ∀ w, k ≠ .word w := by
  unfold sym at hs
  split_ifs at hs with h1 h2 h3 h4 h5 h6
  all_goals
    cases hs
    subst_vars
    exact ⟨by decide, rfl, rfl, nofun⟩

lemma drop_succ (h : t.drop s = c :: cs) : t.drop (s + 1) = cs := by
  rw [← drop_drop, h]
  rfl

lemma deref_gt : deref t s = '>' ↔ (t.drop s).head? = some '>' := by
  cases h : t.drop s with
  | nil =>
    rw [deref_nil h]
    exact ⟨fun hx => absurd hx (by decide), nofun⟩
  | cons =>
    rw [deref_cons h]
    simp

lemma length_drop_cons (h : t.drop s = c :: cs) : t.length = s + 1 + cs.length := by
  have h1 := congrArg length h
  rw [length_drop, length_cons] at h1
  omega

/-- the token that begins at `s`, where there is no whitespace. -/
theorem token_spec (hn : NUL ∉ t) (hd : t.drop s = c :: cs) (hw : isWhite c = false) :
    ∃ k ks, tokens (t.drop s) = k :: ks ∧ (token t s).1 = k.code ∧ At t (token t s).2 ks ∧
      (∀ w, k = .word w → Word t s (token t s).2 w) ∧
      ∀ l : List Char, (∀ d ∈ l, d ∈ symbols) → (k.first ∈ l ↔ c ∈ l) := by
  have hlen := length_drop_cons hd
  have hc : c ≠ NUL := by
    rintro rfl
    exact hn (mem_of_mem_drop (hd ▸ mem_cons_self))
  have hw' : ¬ isWhite c = true := by rw [hw]; exact nofun
  unfold token
  rw [deref_cons hd, if_neg hc, hd, tokens, if_neg hw']
  by_cases hg : c = '>'
  · subst hg
    have hlist : '>' ∉ ['|', '(', ')', ';', '&', '<'] := by decide
    rw [if_neg hlist, if_pos rfl, if_pos rfl]
    by_cases hgg : cs.head? = some '>'
    · -- `>>`
      obtain ⟨cs', rfl⟩ : ∃ cs', cs = '>' :: cs' := by
        cases cs with
        | nil => cases hgg
        | cons d cs' =>
          cases hgg
          exact ⟨cs', rfl⟩
      have h1 := drop_succ hd
      rw [if_pos (deref_gt.mpr (by rw [h1]; rfl)), if_pos hgg]
      refine ⟨_, _, rfl, rfl, ⟨?_, ?_⟩, nofun, fun l _ => Iff.rfl⟩
      · rw [hlen, length_cons]
        show s + 2 ≤ _
        omega
      · show tokens (t.drop (s + 2)) = _
        rw [drop_succ h1]
        rfl
    · have hg1 : deref t (s + 1) ≠ '>' := by
        rw [Ne, deref_gt, drop_succ hd]
        exact hgg
      rw [if_neg hg1, if_neg hgg]
      refine ⟨_, _, rfl, rfl, ⟨?_, by rw [drop_succ hd]⟩, nofun, fun l _ => Iff.rfl⟩
      show s + 1 ≤ _
      omega
  · rw [if_neg hg]
    cases hs : sym c with
    | some k =>
      obtain ⟨h1, h2, h3, h4⟩ := sym_some hs
      rw [if_pos h1]
      refine ⟨k, _, rfl, h2.symm, ⟨?_, by rw [drop_succ hd]⟩, fun w hk => absurd hk (h4 w), fun l _ => by rw [h3]⟩
      show s + 1 ≤ _
      omega
    | none =>
      -- a word
      have hword := sym_none hw hg hs
      have hsym : c ∉ symbols := by
        intro hx
        rw [isWord_false_of_mem hx] at hword
        cases hword
      have hlist : c ∉ ['|', '(', ')', ';', '&', '<'] := by
        intro hx
        apply hsym
        revert hx
        simp only [symbols, mem_cons, not_mem_nil, or_false]
        tauto
      rw [if_neg hlist, if_neg hg]
      have hsle : s ≤ t.length := by omega
      have hscan : scan isWord (c :: cs) s = s + (c :: cs.takeWhile isWord).length := by
        rw [scan_eq, takeWhile_cons_of_pos hword]
      have hrest : t.drop (scan isWord (c :: cs) s) = cs.dropWhile isWord := by
        have h1 := drop_scan isWord t s
        rw [hd, dropWhile_cons_of_pos hword] at h1
        exact h1
      have hle : scan isWord (c :: cs) s ≤ t.length := by
        have h1 := scan_le hsle isWord
        rw [hd] at h1
        exact h1
      have hskip : skip t s = s := by rw [skip, hd, scan, if_neg hw']
      refine ⟨_, _, rfl, rfl, ⟨hle, by rw [hrest]⟩, fun w hk => ?_, fun l hl => ?_⟩
      · cases hk
        refine ⟨?_, hscan, hle, fun d hx => ?_, fun d hx => ?_, ?_⟩
        · rw [hrest, hd, cons_append, takeWhile_append_dropWhile]
        · rcases mem_cons.mp hx with rfl | hx
          · exact hword
          · exact mem_takeWhile_imp hx
        · rw [← head?_drop, hrest] at hx
          cases hr : cs.dropWhile isWord with
          | nil =>
            rw [hr] at hx
            cases hx
          | cons =>
            rw [hr] at hx
            cases hx
            exact head_dropWhile hr
        · simp only [gettoken, hskip, token, deref_cons hd, if_neg hc, if_neg hlist, if_neg hg, hd]
      · have ha : 'a' ∉ symbols := by decide
        exact ⟨fun hx => absurd (hl 'a' hx) ha, fun hx => absurd (hl c hx) hsym⟩

/-! ## `gettoken` and `peek` -/

section
variable {E : Halt → Prop} {t : List Char} {s : Nat} {k : Tok} {ks : List Tok}

lemma wp_gettoken (hn : NUL ∉ t) (h : At t s (k :: ks)) : wp E (gettoken t)
      (fun r s' => r.ret = k.code ∧ (∀ w, k = .word w → Word t r.q r.eq w) ∧ At t s' ks) s := by
  have hskip := h.skip
  show (token t (skip t s)).1 = k.code ∧ (∀ w, k = .word w → Word t (skip t s) (token t (skip t s)).2 w) ∧
    At t (skip t (token t (skip t s)).2) ks
  obtain hd | ⟨c, cs, hd, hw⟩ := skip_cases t s
  · have h1 := hskip.eq
    rw [hd] at h1
    rw [tokens] at h1
    cases h1
  · obtain ⟨k', ks', h1, h2, h3, h4, -⟩ := token_spec hn hd hw
    rw [hskip.eq] at h1
    cases h1
    exact ⟨h2, h4, h3.skip⟩

lemma wp_gettoken_nil (hn : NUL ∉ t) (h : At t s []) :
    wp E (gettoken t) (fun r s' => r.ret = NUL ∧ At t s' []) s := by
  have hskip := h.skip
  show (token t (skip t s)).1 = NUL ∧ At t (skip t (token t (skip t s)).2) []
  obtain hd | ⟨c, cs, hd, hw⟩ := skip_cases t s
  · have h1 : token t (skip t s) = (NUL, skip t s) := by
      unfold token
      rw [if_pos (deref_nil hd)]
    rw [h1]
    exact ⟨rfl, hskip.skip⟩
  · obtain ⟨k', ks', h1, -⟩ := token_spec hn hd hw
    rw [hskip.eq] at h1
    cases h1

lemma wp_peek (hn : NUL ∉ t) (h : At t s ks) (hl : l.all (· ∈ symbols) = true) :
    wp E (peek t l) (fun b s' => b = starts l ks ∧ At t s' ks) s := by
  have hskip := h.skip
  refine ⟨?_, hskip⟩
  obtain hd | ⟨c, cs, hd, hw⟩ := skip_cases t s
  · have h1 := hskip.eq
    rw [hd, tokens] at h1
    rw [← h1, deref_nil hd]
    rfl
  · have hc : c ≠ NUL := by
      rintro rfl
      exact hn (mem_of_mem_drop (hd ▸ mem_cons_self))
    obtain ⟨k, ks', h1, -, -, -, h5⟩ := token_spec hn hd hw
    rw [hskip.eq] at h1
    rw [h1, deref_cons hd]
    show decide (c ≠ NUL ∧ c ∈ l) = decide (k.first ∈ l)
    rw [decide_eq_decide, h5 l fun d hd => of_decide_eq_true (all_eq_true.mp hl d hd)]
    exact ⟨fun hx => hx.2, fun hx => ⟨hc, hx⟩⟩

lemma wp_peek_seq {f : Bool → M α} {R : α → Nat → Prop} (hn : NUL ∉ t) (h : At t s ks) (hl : l.all (· ∈ symbols) = true)
    (hf : ∀ s', At t s' ks → wp E (f (starts l ks)) R s') : wp E (peek t l >>= f) R s := by
  apply wp_seq (wp_peek hn h hl)
  rintro _ s' ⟨rfl, h'⟩
  exact hf s' h'

end

end

end Xv6.Sh
