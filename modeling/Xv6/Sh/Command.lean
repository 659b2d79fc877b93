import Xv6.Sh.Accepts

/-!
# The command that `parsecmd` returns

`nulterminate` ends every word of the tree by a NUL, where the word has its end (`Word`). These places are no
characters of words, so the words of the tree can be read from the text (`Cmd.text`), and they are those that the
grammar gives.
-/

namespace Xv6.Sh
open Lib List

variable {t buf buf' : List Char} {s n : Nat} {ks : List Tok} {c : Cmd} {T : Tree} {w : List Char} {q e : Nat}

/-- the string at `q`. -/
def cstring (buf : List Char) (q : Nat) : List Char := (buf.drop q).takeWhile (· ≠ NUL)

/-- the command with its words, as they stand in the text. -/
def Cmd.text (buf : List Char) : Cmd → Tree
  | .exec argv _ => .exec ((argv.takeWhile Option.isSome).filterMap fun q => q.map (cstring buf))
  | .redir c file _ mode fd => .redir (c.text buf) (cstring buf file) mode fd
  | .pipe l r => .pipe (l.text buf) (r.text buf)
  | .list l r => .list (l.text buf) (r.text buf)
  | .back c => .back (c.text buf)

/-- the strings of the command: `argv[i]` of every `EXEC` node and `file` of every `REDIR` node. -/
def Cmd.strings : Cmd → List Nat
  | .exec argv _ => argv.filterMap id
  | .redir c file _ _ _ => file :: c.strings
  | .pipe l r => l.strings ++ r.strings
  | .list l r => l.strings ++ r.strings
  | .back c => c.strings

/-- each of them is a word, and stands in the buffer. -/
def Delivers (t buf : List Char) (c : Cmd) : Prop :=
  ∀ q ∈ c.strings, ∃ e w, Word t q e w ∧ cstring buf q = w

/-- the characters of words are those of the text. -/
structure Reads (t buf : List Char) : Prop where
  chars : ∀ (i : Nat) c, t[i]? = some c → isWord c = true → buf[i]? = some c
  length : buf.length = t.length + 1

/-- what is ended stays so. -/
def Keeps (buf buf' : List Char) : Prop := ∀ e : Nat, buf[e]? = some NUL → buf'[e]? = some NUL

lemma Reads.set (h : Reads t buf) (hw : Word t q e w) : Reads t (buf.set e NUL) := by
  refine ⟨fun i c hi hc => ?_, by rw [length_set]; exact h.length⟩
  have hne : e ≠ i := by
    rintro rfl
    rw [hw.last c hi] at hc
    cases hc
  rw [getElem?_set_ne hne]
  exact h.chars i c hi hc

lemma Keeps.set (buf : List Char) (e : Nat) : Keeps buf (buf.set e NUL) := by
  intro i hi
  rw [List.getElem?_set]
  split
  · next he =>
    have hlt : i < buf.length := (List.getElem?_eq_some_iff.mp hi).1
    rw [if_pos (he ▸ hlt)]
  · exact hi

lemma set_ended (h : Reads t buf) (hw : Word t q e w) : (buf.set e NUL)[e]? = some NUL := by
  rw [List.getElem?_set_self]
  have h1 := h.length
  have h2 := hw.bound
  omega

lemma Word.cstring (hn : NUL ∉ t) (hw : Word t q e w) (h : Reads t buf)
    (he : buf[e]? = some NUL) : cstring buf q = w := by
  have htext : buf.drop q = w ++ buf.drop e := by
    apply ext_getElem?
    intro i
    rw [List.getElem?_drop]
    by_cases hi : i < w.length
    · have h1 : t[q + i]? = some w[i] := by
        rw [← List.getElem?_drop, hw.text, List.getElem?_append_left hi, List.getElem?_eq_getElem hi]
      rw [List.getElem?_append_left hi, List.getElem?_eq_getElem hi]
      exact h.chars _ _ h1 (hw.chars _ (getElem_mem hi))
    · rw [List.getElem?_append_right (by omega), List.getElem?_drop]
      congr 1
      rw [hw.stop]
      omega
  obtain ⟨hlt, hget⟩ := List.getElem?_eq_some_iff.mp he
  have hmem : ∀ c ∈ w, decide (c ≠ NUL) = true := by
    intro c hc
    apply decide_eq_true
    rintro rfl
    apply hn
    apply mem_of_mem_drop (i := q)
    rw [hw.text]
    exact mem_append_left _ hc
  unfold Sh.cstring
  rw [htext, takeWhile_append_of_pos hmem, drop_eq_getElem_cons hlt, hget,
    takeWhile_cons_of_neg (by simp), append_nil]

/-- the buffer with the ends of these words. -/
def endAll (ps : List Place) (buf : List Char) : List Char := ps.foldl (fun b p => b.set p.e NUL) buf

lemma nulargs_eq (ps : List Place) (m m' : Nat) (buf : List Char) :
    nulargs ((ps.map Place.q).map some ++ List.replicate (m + 1) none)
      ((ps.map Place.e).map some ++ List.replicate m' none) buf = .ok (endAll ps buf) := by
  induction ps generalizing buf with
  | nil => rfl
  | cons p ps ih => exact ih _

lemma endAll_spec {ps : List Place} (hps : ∀ p ∈ ps, Word t p.q p.e p.w) (h : Reads t buf) :
    Reads t (endAll ps buf) ∧ Keeps buf (endAll ps buf) ∧ ∀ p ∈ ps, (endAll ps buf)[p.e]? = some NUL := by
  induction ps generalizing buf with
  | nil => exact ⟨h, fun _ he => he, nofun⟩
  | cons p ps ih =>
    have hp := hps p mem_cons_self
    obtain ⟨h1, h2, h3⟩ := ih (fun p' hp' => hps p' (mem_cons_of_mem _ hp')) (h.set hp)
    refine ⟨h1, fun e he => h2 e (Keeps.set buf p.e e he), fun p' hp' => ?_⟩
    rcases mem_cons.mp hp' with rfl | hp'
    · exact h2 _ (set_ended h hp)
    · exact h3 p' hp'

lemma text_args (qs : List Nat) (buf : List Char) :
    ((args qs).takeWhile Option.isSome).filterMap (fun q => q.map (cstring buf)) = qs.map (cstring buf) := by
  unfold args
  generalize MAXARGS - qs.length = m
  induction qs with
  | nil =>
    cases m with
    | zero => rfl
    | succ => rfl
  | cons q qs ih =>
    rw [map_cons, cons_append, takeWhile_cons_of_pos rfl, map_cons, ← ih]
    rfl

lemma filterMap_args (qs : List Nat) : (args qs).filterMap id = qs := by
  simp [args, filterMap_append, filterMap_map]

lemma Spells.nulterminate (hn : NUL ∉ t) (h : Spells t c T) (hb : Reads t buf) :
    ∃ buf', nulterminate c buf = .ok buf' ∧ Reads t buf' ∧ Keeps buf buf' ∧
      ∀ buf'', Reads t buf'' → Keeps buf' buf'' → c.text buf'' = T ∧ Delivers t buf'' c := by
  induction h generalizing buf with
  | exec ps hps =>
    obtain ⟨h1, h2, h3⟩ := endAll_spec hps hb
    refine ⟨endAll ps buf, ?_, h1, h2, fun buf'' hb'' hk => ?_⟩
    · have hlen : ∀ f : Place → Nat, MAXARGS - (ps.map f).length = (MAXARGS - ps.length - 1) + 1 := fun f => by
        rw [length_map]
        omega
      unfold Sh.nulterminate args
      rw [hlen, hlen]
      exact nulargs_eq ps _ _ buf
    · have hw : ∀ p ∈ ps, cstring buf'' p.q = p.w := fun p hp =>
        (hps p hp).cstring hn hb'' (hk _ (h3 p hp))
      constructor
      · unfold Cmd.text
        rw [text_args, map_map]
        exact congrArg _ (map_congr_left hw)
      · intro q hq
        rw [Cmd.strings, filterMap_args] at hq
        obtain ⟨p, hp, rfl⟩ := mem_map.mp hq
        exact ⟨p.e, p.w, hps p hp, hw p hp⟩
  | @redir c T q e w mode fd _ hw ih =>
    obtain ⟨buf1, h1, h2, h3, h4⟩ := ih hb
    refine ⟨buf1.set e NUL, ?_, h2.set hw, fun i hi => Keeps.set buf1 e i (h3 i hi), fun buf'' hb'' hk => ?_⟩
    · unfold Sh.nulterminate
      rw [h1]
      rfl
    · obtain ⟨h5, h6⟩ := h4 buf'' hb'' fun i hi => hk i (Keeps.set buf1 e i hi)
      have h7 := hw.cstring hn hb'' (hk e (set_ended h2 hw))
      refine ⟨by rw [Cmd.text, h5, h7], fun q' hq => ?_⟩
      rcases mem_cons.mp hq with rfl | hq
      · exact ⟨e, w, hw, h7⟩
      · exact h6 q' hq
  | pipe _ _ ih ih' | list _ _ ih ih' =>
    obtain ⟨buf1, h1, h2, h3, h4⟩ := ih hb
    obtain ⟨buf2, h5, h6, h7, h8⟩ := ih' h2
    refine ⟨buf2, ?_, h6, fun i hi => h7 i (h3 i hi), fun buf'' hb'' hk => ?_⟩
    · unfold Sh.nulterminate
      rw [h1]
      exact h5
    · obtain ⟨h9, h10⟩ := h4 buf'' hb'' fun i hi => hk i (h7 i hi)
      obtain ⟨h11, h12⟩ := h8 buf'' hb'' hk
      refine ⟨by rw [Cmd.text, h9, h11], fun q hq => ?_⟩
      rcases mem_append.mp hq with hq | hq
      · exact h10 q hq
      · exact h12 q hq
  | back _ ih =>
    obtain ⟨buf1, h1, h2, h3, h4⟩ := ih hb
    refine ⟨buf1, h1, h2, h3, fun buf'' hb'' hk => ?_⟩
    obtain ⟨h5, h6⟩ := h4 buf'' hb'' hk
    exact ⟨by rw [Cmd.text, h5], h6⟩

/-! ## `parsecmd` -/

lemma reads_text (t : List Char) : Reads t (t ++ [NUL]) := by
  refine ⟨fun i c hi _ => ?_, by rw [length_append]; rfl⟩
  rw [List.getElem?_append_left (List.getElem?_eq_some_iff.mp hi).1]
  exact hi

lemma tokens_length (l : List Char) : (tokens l).length ≤ l.length := by
  fun_induction tokens l with
  | case1 => exact Nat.le_refl _
  | case2 c cs _ ih => exact Nat.le_succ_of_le ih
  | case3 cs _ _ ih =>
    rw [length_cons, length_cons]
    rw [length_tail] at ih
    omega
  | case4 cs _ _ ih | case5 c cs _ _ k _ ih => exact Nat.succ_le_succ ih
  | case6 c cs _ _ _ ih =>
    exact Nat.succ_le_succ (Nat.le_trans ih (dropWhile_sublist _).length_le)

lemma At.end_iff (hn : NUL ∉ t) (h : At t s ks) : Sh.skip t s = t.length ↔ ks = [] := by
  have hskip := h.skip
  obtain hd | ⟨c, cs, hd, hw⟩ := skip_cases t s
  · have h1 := hskip.eq
    rw [hd, tokens] at h1
    exact ⟨fun _ => h1.symm, fun _ => Nat.le_antisymm hskip.le (drop_eq_nil_iff.mp hd)⟩
  · constructor
    · intro hx
      rw [hx, drop_length] at hd
      cases hd
    · rintro rfl
      obtain ⟨k, ks, h1, -⟩ := token_spec hn hd hw
      rw [hskip.eq] at h1
      cases h1

lemma at_zero (t : List Char) : At t 0 (tokens t) := ⟨Nat.zero_le _, rfl⟩

lemma parsecmd_ok (hn : NUL ∉ t) {v : List Tok} (hp : parseline t n 0 = .ok (c, s)) (h : At t s v)
    (hc : Spells t c T) :
    (v = [] → ∃ buf, parsecmd t n = .ok (c, buf) ∧ c.text buf = T ∧ Reads t buf ∧ Delivers t buf c) ∧
      (v ≠ [] → parsecmd t n = .error (.panic "syntax")) := by
  have hrun : parsecmd t n = if skip t s ≠ t.length then .error (.panic "syntax")
      else (nulterminate c (t ++ [NUL])).map fun buf => (c, buf) := by
    unfold parsecmd
    rw [hp]
    rfl
  rw [hrun]
  constructor
  · intro hv
    obtain ⟨buf, h1, h2, -, h4⟩ := hc.nulterminate hn (reads_text t)
    rw [if_neg (not_not.mpr ((h.end_iff hn).mpr hv)), h1]
    obtain ⟨h5, h6⟩ := h4 buf h2 fun _ he => he
    exact ⟨buf, rfl, h5, h2, h6⟩
  · intro hv
    rw [if_pos fun hx => hv ((h.end_iff hn).mp hx)]

/-- what `parsecmd` returns is derived from the text, and its strings are delivered. -/
theorem parsecmd_sound (hn : NUL ∉ t) (hf : 4 * t.length + 4 ≤ n) (h : parsecmd t n = .ok (c, buf)) :
    Gen .line (tokens t) (c.text buf) ∧ Reads t buf ∧ Delivers t buf c := by
  have hlen := tokens_length t
  have hsound := (sound hn .line (at_zero t) (n := n) (by show _ + 4 ≤ n; omega)).elim
  cases hp : parseline t n 0 with
  | error =>
    unfold parsecmd at h
    rw [hp] at h
    cases h
  | ok r =>
    obtain ⟨c', s⟩ := r
    obtain ⟨u, v, T, htoks, hat, hg, hc⟩ := hsound.1 c' s hp
    obtain ⟨h1, h2⟩ := parsecmd_ok hn hp hat hc
    by_cases hv : v = []
    · obtain ⟨buf', h3, h4, h5⟩ := h1 hv
      rw [h] at h3
      cases h3
      rw [h4, htoks, hv, append_nil]
      exact ⟨hg, h5⟩
    · rw [h2 hv] at h
      cases h

/-- The parser accepts exactly the grammar: on every text without NUL it ends; it returns a tree exactly when the
tokens of the text are derived from `line`, and then it returns the tree of the derivation; otherwise it ends in
`panic`. -/
theorem parser_accepts_grammar (hn : NUL ∉ t) (hf : 4 * t.length + 4 ≤ n) :
    (∀ T, (∃ c buf, parsecmd t n = .ok (c, buf) ∧ c.text buf = T) ↔ Gen .line (tokens t) T) ∧
      ((∀ T, ¬ Gen .line (tokens t) T) → ∃ msg, parsecmd t n = .error (.panic msg)) := by
  have hlen := tokens_length t
  have hsound := (sound hn .line (at_zero t) (n := n) (by show _ + 4 ≤ n; omega)).elim
  refine ⟨fun T => ⟨?_, fun hg => ?_⟩, fun hno => ?_⟩
  · rintro ⟨c, buf, h, rfl⟩
    exact (parsecmd_sound hn hf h).1
  · have hcomp := (complete hn hg n 0 [] (by rw [append_nil]; exact at_zero t) (.inl rfl)
      (by rw [append_nil]; show _ + 4 ≤ n; omega)).elim
    cases hp : parseline t n 0 with
    | error e => exact (hcomp.2 e hp).elim
    | ok r =>
      obtain ⟨c, s⟩ := r
      obtain ⟨hat, hc⟩ := hcomp.1 c s hp
      obtain ⟨buf, h1, h2, -⟩ := (parsecmd_ok hn hp hat hc).1 rfl
      exact ⟨c, buf, h1, h2⟩
  · cases hp : parseline t n 0 with
    | error e =>
      have he := hsound.2 e hp
      cases e with
      | panic msg =>
        refine ⟨msg, ?_⟩
        unfold parsecmd
        rw [hp]
        rfl
      | _ => exact he.elim
    | ok r =>
      obtain ⟨c, s⟩ := r
      obtain ⟨u, v, T, htoks, hat, hg, hc⟩ := hsound.1 c s hp
      refine ⟨_, (parsecmd_ok hn hp hat hc).2 fun hv => hno T ?_⟩
      rw [htoks, hv, append_nil]
      exact hg

/-- `a<f|(b;c)&` -/
theorem parser_accepts_grammar_block :
    Gen .line (tokens ['a', '<', 'f', '|', '(', 'b', ';', 'c', ')', '&'])
      (.back (.pipe (.redir (.exec [['a']]) ['f'] O_RDONLY 0) (.list (.exec [['b']]) (.exec [['c']])))) := by
  have run : (parsecmd ['a', '<', 'f', '|', '(', 'b', ';', 'c', ')', '&'] 100).toOption.map
      (fun r => r.1.text r.2) =
      some (.back (.pipe (.redir (.exec [['a']]) ['f'] O_RDONLY 0) (.list (.exec [['b']]) (.exec [['c']])))) := by
    decide +kernel
  apply ((parser_accepts_grammar (n := 100) (by decide) (by decide)).1 _).mp
  obtain ⟨⟨c, buf⟩, h1, h2⟩ := Option.map_eq_some_iff.mp run
  cases hp : parsecmd ['a', '<', 'f', '|', '(', 'b', ';', 'c', ')', '&'] 100 with
  | error =>
    rw [hp] at h1
    cases h1
  | ok =>
    rw [hp] at h1
    cases h1
    exact ⟨c, buf, rfl, h2⟩

/-- `nulterminate` delivers exactly the tokens: in every line that `parsecmd` accepts, each string of the tree is what
`gettoken` has delimited at its place, and no character of a word is overwritten. -/
theorem nulterminate_delivers_tokens (hn : NUL ∉ t) (hf : 4 * t.length + 4 ≤ n) (h : parsecmd t n = .ok (c, buf)) :
    (∀ q ∈ c.strings, ∃ e s', gettoken t q = .ok (⟨'a', q, e⟩, s') ∧
      cstring buf q = (t.drop q).take (e - q)) ∧
      ∀ (i : Nat) d, t[i]? = some d → isWord d = true → buf[i]? = some d := by
  obtain ⟨-, hr, hd⟩ := parsecmd_sound hn hf h
  refine ⟨fun q hq => ?_, hr.chars⟩
  obtain ⟨e, w, hw, hs⟩ := hd q hq
  refine ⟨e, _, hw.token, ?_⟩
  rw [hs, hw.text, hw.stop, Nat.add_sub_cancel_left, take_left]

/-- the line `a>>f` is accepted, with the strings `a` and `f`. -/
theorem nulterminate_delivers_tokens_redir : ∃ c buf, parsecmd ['a', '>', '>', 'f'] 20 = .ok (c, buf) ∧
    c.strings = [3, 0] ∧ ∀ (i : Nat) d, ['a', '>', '>', 'f'][i]? = some d → isWord d = true → buf[i]? = some d :=
  ⟨_, _, rfl, rfl, (nulterminate_delivers_tokens (n := 20) (by decide) (by decide) rfl).2⟩

end Xv6.Sh
