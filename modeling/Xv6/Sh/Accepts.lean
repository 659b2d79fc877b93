import Xv6.Sh.Grammar

/-!
# The parser accepts the grammar

`Spells t c T`: the node `c` is the tree `T`, with its pointers at the words of `T` in the text.

* `sound_*`: what a function of the parser returns is derived from the tokens that it has taken, and it fails only
  in `panic`;
* `complete_*`: it does not fail on tokens that are derived, when a token that ends the phrase follows.

Both are by induction on the fuel, of which four for each token are enough.
-/

namespace Xv6.Sh
open Lib List

variable {t : List Char} {s n : Nat} {ks u v : List Tok} {k : Tok} {c c' : Cmd} {T : Tree}
variable {ws : List (List Char)} {w : List Char} {ps : List Nat}

/-- a failure by `panic`. -/
def isPanic : Halt → Prop
  | .panic _ => True
  | _ => False

/-- the pointers of the arguments, up to the null pointers. -/
def args (ps : List Nat) : List (Option Nat) := ps.map some ++ replicate (MAXARGS - ps.length) none

/-- a word and its pointers. -/
structure Place where
  q : Nat
  e : Nat
  w : List Char

inductive Spells (t : List Char) : Cmd → Tree → Prop
  | exec (ps : List Place) (hw : ∀ p ∈ ps, Word t p.q p.e p.w) (hl : ps.length < MAXARGS) :
      Spells t (.exec (args (ps.map Place.q)) (args (ps.map Place.e))) (.exec (ps.map Place.w))
  | redir {c : Cmd} {T : Tree} {q e : Nat} {w : List Char} {mode fd : Nat} (h : Spells t c T)
      (hw : Word t q e w) : Spells t (.redir c q e mode fd) (.redir T w mode fd)
  | pipe {c d : Cmd} {T U : Tree} (h : Spells t c T) (h' : Spells t d U) : Spells t (.pipe c d) (.pipe T U)
  | list {c d : Cmd} {T U : Tree} (h : Spells t c T) (h' : Spells t d U) : Spells t (.list c d) (.list T U)
  | back {c : Cmd} {T : Tree} (h : Spells t c T) : Spells t (.back c) (.back T)

/-! ## storing a word -/

/-- a simple command: redirections of an `exec` with these words. -/
inductive Simple : Tree → List (List Char) → Prop
  | exec (ws : List (List Char)) : Simple (.exec ws) ws
  | redir {T : Tree} {ws : List (List Char)} {f : List Char} {mode fd : Nat} (h : Simple T ws) :
      Simple (.redir T f mode fd) ws

/-- one more word. -/
def Tree.addArg (w : List Char) : Tree → Tree
  | .exec ws => .exec (ws ++ [w])
  | .redir T f mode fd => .redir (T.addArg w) f mode fd
  | T => T

lemma Simple.put {ws : List (List Char)} (h : Simple T ws) (r : Redir) : Simple (r.put T) ws := by
  unfold Redir.put
  split <;> exact .redir h

lemma Simple.wrap (h : Simple T ws) (rs : List Redir) : Simple (wrap rs T) ws := by
  induction rs generalizing T with
  | nil => exact h
  | cons r rs ih => exact ih (h.put r)

lemma addArg_put (r : Redir) : (r.put T).addArg w = r.put (T.addArg w) := by
  unfold Redir.put
  split <;> rfl

lemma addArg_wrap (rs : List Redir) : (wrap rs T).addArg w = wrap rs (T.addArg w) := by
  induction rs generalizing T with
  | nil => rfl
  | cons r rs ih =>
    show (Sh.wrap rs (r.put T)).addArg w = Sh.wrap rs (r.put (T.addArg w))
    rw [ih, addArg_put]

lemma args_set (h : ps.length < MAXARGS) (q : Nat) : (args ps).set ps.length (some q) = args (ps ++ [q]) := by
  have h1 : MAXARGS - ps.length = MAXARGS - (ps ++ [q]).length + 1 := by
    rw [length_append, length_singleton]
    omega
  unfold args
  rw [h1, replicate_succ, set_append_right _ _ (by rw [length_map])]
  simp

/-- after the last word there is a null pointer already. -/
theorem args_set_none (h : ps.length < MAXARGS) : (args ps).set ps.length none = args ps := by
  obtain ⟨m, hm⟩ : ∃ m, MAXARGS - ps.length = m + 1 := ⟨MAXARGS - ps.length - 1, by omega⟩
  unfold args
  rw [hm, replicate_succ, set_append_right _ _ (by rw [length_map])]
  simp

section
variable (h : Spells t c T) (hT : Simple T ws)
include h hT

lemma Spells.store (q e : Option Nat) : ∃ c', c.store ws.length q e = .ok c' := by
  induction h generalizing ws with
  | exec ps _ hl =>
    cases hT
    exact ⟨_, if_pos (by rw [length_map]; exact hl)⟩
  | redir _ _ ih =>
    cases hT with
    | redir hT =>
      obtain ⟨c', h⟩ := ih hT
      unfold Cmd.store
      rw [h]
      exact ⟨_, rfl⟩
  | _ => cases hT

lemma Spells.store_some (hl : ws.length + 1 < MAXARGS) {q e : Nat}
    (hw : Word t q e w) (hc : c.store ws.length (some q) (some e) = .ok c') : Spells t c' (T.addArg w) := by
  induction h generalizing ws c' with
  | exec ps hps hl' =>
    cases hT
    have hlen : ∀ {α : Type} (f : Place → α), (ps.map f).length < MAXARGS := fun f => by
      rw [length_map]
      exact hl'
    unfold Cmd.store at hc
    rw [if_pos (hlen _)] at hc
    cases hc
    have h1 : (args (ps.map Place.q)).set (ps.map Place.w).length (some q) =
        args ((ps ++ [Place.mk q e w]).map Place.q) := by
      rw [length_map, ← length_map Place.q, args_set (hlen _), map_append]
      rfl
    have h2 : (args (ps.map Place.e)).set (ps.map Place.w).length (some e) =
        args ((ps ++ [Place.mk q e w]).map Place.e) := by
      rw [length_map, ← length_map Place.e, args_set (hlen _), map_append]
      rfl
    have h3 : Tree.addArg w (.exec (ps.map Place.w)) = .exec ((ps ++ [Place.mk q e w]).map Place.w) := by
      rw [map_append]
      rfl
    rw [h1, h2, h3]
    refine .exec _ (fun p hp => ?_) ?_
    · rcases mem_append.mp hp with hp | hp
      · exact hps p hp
      · rw [mem_singleton.mp hp]
        exact hw
    · rw [length_append, length_singleton]
      rw [length_map] at hl
      exact hl
  | @redir c T _ _ _ _ _ _ hw' ih =>
    cases hT with
    | redir hT =>
      unfold Cmd.store at hc
      cases hs : c.store ws.length (some q) (some e) with
      | error =>
        rw [hs] at hc
        cases hc
      | ok =>
        rw [hs] at hc
        cases hc
        exact .redir (ih hT hl hs) hw'
  | _ => cases hT

lemma Spells.store_none : c.store ws.length none none = .ok c := by
  induction h generalizing ws with
  | exec ps _ hl =>
    cases hT
    have h1 : (args (ps.map Place.q)).set (ps.map Place.w).length none = args (ps.map Place.q) := by
      rw [length_map, ← length_map Place.q, args_set_none (by rw [length_map]; exact hl)]
    have h2 : (args (ps.map Place.e)).set (ps.map Place.w).length none = args (ps.map Place.e) := by
      rw [length_map, ← length_map Place.e, args_set_none (by rw [length_map]; exact hl)]
    unfold Cmd.store
    rw [if_pos (by rw [length_map]; exact hl), h1, h2]
  | @redir c T _ _ _ _ _ _ _ ih =>
    cases hT with
    | redir hT =>
      unfold Cmd.store
      rw [ih hT]
      rfl
  | _ => cases hT

end

/-! ## redirections -/

lemma starts_redir (h : starts ['<', '>'] ks = true) : ∃ o v, ks = .redir o :: v := by
  cases ks with
  | nil => cases h
  | cons k v =>
    cases k with
    | redir o => exact ⟨o, v, rfl⟩
    | _ => cases h

/-- the other tokens are known by their first character. -/
theorem starts_sym (x : Tok) (hx : x ∈ [.bar, .amp, .semi, .lp, .rp]) (h : starts [x.first] ks = true) :
    ∃ v, ks = x :: v := by
  cases ks with
  | nil => cases h
  | cons k v =>
    have hk : k.first = x.first := mem_singleton.mp (of_decide_eq_true h)
    refine ⟨v, congrArg (· :: v) ?_⟩
    simp only [mem_cons, not_mem_nil, or_false] at hx
    rcases hx with rfl | rfl | rfl | rfl | rfl
    all_goals
      cases k with
      | redir o => cases o <;> exact absurd hk (by decide)
      | word =>
        have hk : 'a' = _ := hk
        exact absurd hk (by decide)
      | _ => first | rfl | exact absurd hk (by decide)

lemma code_ne_nul (k : Tok) : k.code ≠ NUL := by
  cases k with
  | word =>
    show 'a' ≠ NUL
    decide
  | redir o => cases o <;> decide
  | _ => decide

lemma code_word (h : k.code = 'a') : ∃ w, k = .word w := by
  cases k with
  | word w => exact ⟨w, rfl⟩
  | redir o => cases o <;> cases h
  | _ => cases h

section
variable {E : Halt → Prop} {Q : Cmd → Nat → Prop}

lemma redirs_stop (hn : NUL ∉ t) (h : At t s ks) (hb : starts ['<', '>'] ks = false)
    (hq : ∀ s', At t s' ks → Q c s') : wp E (parseredirs t (n + 1) c) Q s := by
  rw [parseredirs]
  refine wp_peek_seq hn h (by decide) fun s1 h1 => ?_
  rw [if_neg (by rw [hb]; exact nofun)]
  exact wp_pure (hq s1 h1)

lemma redirs_step (hn : NUL ∉ t) {o : Op} {f : List Char} (h : At t s (.redir o :: .word f :: v))
    (hq : ∀ c' s', At t s' v → (∀ T, Spells t c T → Spells t c' (Redir.put T ⟨o, f⟩)) →
      wp E (parseredirs t n c') Q s') : wp E (parseredirs t (n + 1) c) Q s := by
  rw [parseredirs]
  refine wp_peek_seq hn h (by decide) fun s1 h1 => ?_
  rw [if_pos (by cases o <;> rfl)]
  apply wp_seq (wp_gettoken hn h1)
  rintro tok s2 ⟨htok, -, h2⟩
  apply wp_seq (wp_gettoken hn h2)
  rintro w s3 ⟨hw, hword, h3⟩
  have ha : w.ret = 'a' := hw
  have hf := hword f rfl
  rw [if_neg (not_not.mpr ha)]
  cases o with
  | lt =>
    have htok : tok.ret = '<' := htok
    rw [if_pos htok]
    exact hq _ _ h3 fun T hT => .redir hT hf
  | gt =>
    have htok : tok.ret = '>' := htok
    rw [htok, if_neg (by decide), if_pos rfl]
    exact hq _ _ h3 fun T hT => .redir hT hf
  | gtgt =>
    have htok : tok.ret = '+' := htok
    rw [htok, if_neg (by decide), if_neg (by decide), if_pos rfl]
    exact hq _ _ h3 fun T hT => .redir hT hf

lemma redirs_fail (hn : NUL ∉ t) {o : Op} (h : At t s (.redir o :: ks)) (hk : ∀ f v, ks ≠ .word f :: v)
    (hE : E (.panic "missing file for redirection")) : wp E (parseredirs t (n + 1) c) Q s := by
  rw [parseredirs]
  refine wp_peek_seq hn h (by decide) fun s1 h1 => ?_
  rw [if_pos (by cases o <;> rfl)]
  apply wp_seq (wp_gettoken hn h1)
  rintro tok s2 ⟨-, -, h2⟩
  cases ks with
  | nil =>
    apply wp_seq (wp_gettoken_nil hn h2)
    rintro w s3 ⟨hw, -⟩
    rw [if_pos (by rw [hw]; decide)]
    exact wp_throw hE
  | cons k ks =>
    apply wp_seq (wp_gettoken hn h2)
    rintro w s3 ⟨hw, -, -⟩
    have ha : w.ret ≠ 'a' := by
      intro ha
      obtain ⟨f, rfl⟩ := code_word (hw.symm.trans ha)
      exact hk f ks rfl
    rw [if_pos ha]
    exact wp_throw hE

end

lemma redirToks_cons (r : Redir) (rs : List Redir) :
    redirToks (r :: rs) = .redir r.op :: .word r.file :: redirToks rs := rfl

lemma sound_redirs (hn : NUL ∉ t) (h : At t s ks) (hf : ks.length + 1 ≤ n) :
    wp isPanic (parseredirs t n c) (fun c' s' => ∃ rs v, ks = redirToks rs ++ v ∧ At t s' v ∧
      ∀ T, Spells t c T → Spells t c' (wrap rs T)) s := by
  induction n generalizing c s ks with
  | zero => omega
  | succ n ih =>
    by_cases hb : starts ['<', '>'] ks = true
    · obtain ⟨o, ks, rfl⟩ := starts_redir hb
      by_cases hw : ∃ f v, ks = .word f :: v
      · obtain ⟨f, v, rfl⟩ := hw
        apply redirs_step hn h
        intro c' s' h' hc'
        simp only [length_cons] at hf
        apply wp_mono (ih h' (by omega))
        rintro c2 s2 ⟨rs, v', rfl, h2, hc2⟩
        exact ⟨⟨o, f⟩ :: rs, v', rfl, h2, fun T hT => hc2 _ (hc' T hT)⟩
      · exact redirs_fail hn h (fun f v hx => hw ⟨f, v, hx⟩) trivial
    · rw [Bool.not_eq_true] at hb
      exact redirs_stop hn h hb fun s' h' => ⟨[], ks, rfl, h', fun T hT => hT⟩

lemma complete_redirs (hn : NUL ∉ t) {rs : List Redir} (h : At t s (redirToks rs ++ v))
    (hv : starts ['<', '>'] v = false) (hf : (redirToks rs ++ v).length + 1 ≤ n) :
    wp (fun _ => False) (parseredirs t n c)
      (fun c' s' => At t s' v ∧ ∀ T, Spells t c T → Spells t c' (wrap rs T)) s := by
  induction rs generalizing c s n with
  | nil =>
    obtain ⟨n, rfl⟩ := Nat.exists_eq_add_of_le' (Nat.le_trans (Nat.le_add_left ..) hf)
    exact redirs_stop hn h hv fun s' h' => ⟨h', fun T hT => hT⟩
  | cons r rs ih =>
    rw [redirToks_cons] at h hf
    simp only [cons_append, length_cons] at h hf
    rcases n with _ | n
    · omega
    apply redirs_step hn h
    intro c' s' h' hc'
    apply wp_mono (ih h' (by omega))
    rintro c2 s2 ⟨h2, hc2⟩
    exact ⟨h2, fun T hT => hc2 _ (hc' T hT)⟩

/-! ## words -/

section
variable {E : Halt → Prop} {Q : Cmd → Nat → Prop} {ws : List (List Char)}

lemma wp_lift {α : Type} {m : Except Halt α} {a : α} {Q : α → Nat → Prop} (hm : m = .ok a) (hq : Q a s) :
    wp E (liftM m : M α) Q s := by
  rw [hm]
  exact hq

lemma args_stop (hn : NUL ∉ t) (h : At t s ks) (hk : ks = [] ∨ starts ['|', ')', '&', ';'] ks = true)
    (hc : Spells t c T) (hT : Simple T ws) (hq : ∀ s', At t s' ks → Q c s') :
    wp E (parseargs t (n + 1) c ws.length) Q s := by
  rw [parseargs]
  refine wp_peek_seq hn h (by decide) fun s1 h1 => ?_
  rcases hk with rfl | hk
  · rw [if_neg (by exact nofun)]
    apply wp_seq (wp_gettoken_nil hn h1)
    rintro tok s2 ⟨htok, h2⟩
    rw [if_pos htok]
    exact wp_lift (hc.store_none hT) (hq s2 h2)
  · rw [if_pos hk]
    exact wp_lift (hc.store_none hT) (hq s1 h1)

lemma args_step (hn : NUL ∉ t) {w : List Char} (h : At t s (.word w :: v)) (hc : Spells t c T)
    (hT : Simple T ws) (hl : ws.length + 1 < MAXARGS)
    (hq : ∀ c' s', At t s' v → Spells t c' (T.addArg w) →
      wp E (parseredirs t n c' >>= fun r => parseargs t n r (ws.length + 1)) Q s') :
    wp E (parseargs t (n + 1) c ws.length) Q s := by
  rw [parseargs]
  refine wp_peek_seq hn h (by decide) fun s1 h1 => ?_
  have hs : starts ['|', ')', '&', ';'] (.word w :: v) = false := by
    show decide ('a' ∈ ['|', ')', '&', ';']) = false
    decide
  rw [if_neg (by rw [hs]; exact nofun)]
  apply wp_seq (wp_gettoken hn h1)
  rintro tok s2 ⟨htok, hword, h2⟩
  have ha : tok.ret = 'a' := htok
  rw [if_neg (by rw [htok]; exact code_ne_nul _), if_neg (not_not.mpr ha)]
  obtain ⟨c', hc'⟩ := hc.store hT (some tok.q) (some tok.eq)
  apply wp_seq (Q := fun a s => a = c' ∧ s = s2) (wp_lift hc' ⟨rfl, rfl⟩)
  rintro _ _ ⟨rfl, rfl⟩
  rw [if_neg (by omega)]
  exact hq _ _ h2 (hc.store_some hT hl (hword w rfl) hc')

lemma args_fail (hn : NUL ∉ t) (h : At t s (k :: v)) (hs : starts ['|', ')', '&', ';'] (k :: v) = false)
    (hk : (∀ w, k ≠ .word w) ∨ ws.length + 1 = MAXARGS) (hc : Spells t c T) (hT : Simple T ws)
    (hE : ∀ msg, E (.panic msg)) : wp E (parseargs t (n + 1) c ws.length) Q s := by
  rw [parseargs]
  refine wp_peek_seq hn h (by decide) fun s1 h1 => ?_
  rw [if_neg (by rw [hs]; exact nofun)]
  apply wp_seq (wp_gettoken hn h1)
  rintro tok s2 ⟨htok, hword, h2⟩
  rw [if_neg (by rw [htok]; exact code_ne_nul _)]
  by_cases ha : tok.ret = 'a'
  · rw [if_neg (not_not.mpr ha)]
    obtain ⟨w, rfl⟩ := code_word (htok.symm.trans ha)
    obtain ⟨c', hc'⟩ := hc.store hT (some tok.q) (some tok.eq)
    apply wp_seq (Q := fun _ _ => True) (wp_lift hc' trivial)
    rintro _ _ -
    rw [if_pos (by rw [hk.resolve_left fun hx => hx w rfl])]
    exact wp_throw (hE _)
  · rw [if_pos ha]
    exact wp_throw (hE _)

end

variable {rs : List Redir} {ws : List (List Char)} {l l' : List Char}

lemma argToks_cons (w : List Char) (rs : List Redir) (as : List (List Char × List Redir)) :
    argToks ((w, rs) :: as) = .word w :: (redirToks rs ++ argToks as) := rfl

/-- the tree of a command with its words and redirections so far. -/
def simple (rs : List Redir) (ws : List (List Char)) : Tree := wrap rs (.exec ws)

lemma simple_simple (rs : List Redir) (ws : List (List Char)) : Simple (simple rs ws) ws :=
  Simple.wrap (.exec ws) rs

lemma simple_addArg (w : List Char) (rs' : List Redir) :
    wrap rs' ((simple rs ws).addArg w) = simple (rs ++ rs') (ws ++ [w]) := by
  unfold simple
  rw [addArg_wrap]
  exact foldl_append.symm

lemma sound_args (hn : NUL ∉ t) (h : At t s ks)
    (hc : Spells t c (simple rs ws)) (hl : ws.length < MAXARGS) (hf : ks.length + 1 ≤ n) :
    wp isPanic (parseargs t n c ws.length) (fun c' s' => ∃ as v, ks = argToks as ++ v ∧ At t s' v ∧
      ws.length + as.length < MAXARGS ∧
      Spells t c' (simple (rs ++ as.flatMap Prod.snd) (ws ++ as.map Prod.fst))) s := by
  induction n generalizing c s ks rs ws with
  | zero => omega
  | succ n ih =>
    by_cases hk : ks = [] ∨ starts ['|', ')', '&', ';'] ks = true
    · apply args_stop hn h hk hc (simple_simple rs ws)
      intro s' h'
      refine ⟨[], ks, rfl, h', hl, ?_⟩
      simp only [flatMap_nil, map_nil, append_nil]
      exact hc
    · obtain ⟨hk1, hk2⟩ := not_or.mp hk
      obtain ⟨k, v, rfl⟩ := exists_cons_of_ne_nil hk1
      rw [Bool.not_eq_true] at hk2
      by_cases hw : (∀ w, k ≠ .word w) ∨ ws.length + 1 = MAXARGS
      · exact args_fail hn h hk2 hw hc (simple_simple rs ws) fun _ => trivial
      · obtain ⟨hw, hl'⟩ := not_or.mp hw
        obtain ⟨w, rfl⟩ : ∃ w, k = .word w := by
          by_contra hx
          exact hw fun w hkw => hx ⟨w, hkw⟩
        simp only [length_cons] at hf
        apply args_step hn h hc (simple_simple rs ws) (by omega)
        intro c1 s1 h1 hc1
        apply wp_seq (sound_redirs hn h1 (by omega))
        rintro c2 s2 ⟨rs2, v2, rfl, h2, hc2⟩
        have hc2 := hc2 _ hc1
        rw [simple_addArg] at hc2
        have hlen : (ws ++ [w]).length = ws.length + 1 := by simp
        rw [length_append] at hf
        rw [← hlen]
        apply wp_mono (ih h2 hc2 (by omega) (by omega))
        rintro c3 s3 ⟨as, v3, rfl, h3, hl3, hc3⟩
        refine ⟨(w, rs2) :: as, v3, ?_, h3, ?_, ?_⟩
        · rw [argToks_cons, cons_append, append_assoc]
        · rw [length_cons]
          omega
        · rw [append_assoc, append_assoc] at hc3
          exact hc3

/-- the tokens that end a simple command. -/
def Ends (l : List Char) (v : List Tok) : Prop := v = [] ∨ starts l v = true

lemma Ends.mono (h : Ends l v) (hl : l.all (· ∈ l') = true) : Ends l' v := by
  rcases h with h | h
  · exact .inl h
  · right
    cases v with
    | nil => cases h
    | cons => exact all_eq_true.mp hl _ (of_decide_eq_true h)

lemma Ends.not_starts (h : Ends l v) (hl : l.all (· ∉ l') = true) : starts l' v = false := by
  cases v with
  | nil => rfl
  | cons =>
    exact decide_eq_false (of_decide_eq_true (all_eq_true.mp hl _ (of_decide_eq_true (h.resolve_left nofun))))

lemma starts_args (hl : 'a' ∉ l) (hv : starts l v = false)
    (as : List (List Char × List Redir)) : starts l (argToks as ++ v) = false := by
  cases as with
  | nil => exact hv
  | cons => exact decide_eq_false hl

lemma complete_args (hn : NUL ∉ t) {as : List (List Char × List Redir)} (h : At t s (argToks as ++ v))
    (hv : Ends ['|', ')', '&', ';'] v) (hc : Spells t c (simple rs ws)) (hl : ws.length + as.length < MAXARGS)
    (hf : (argToks as ++ v).length + 1 ≤ n) :
    wp (fun _ => False) (parseargs t n c ws.length) (fun c' s' => At t s' v ∧
      Spells t c' (simple (rs ++ as.flatMap Prod.snd) (ws ++ as.map Prod.fst))) s := by
  induction as generalizing c s n rs ws with
  | nil =>
    rcases n with _ | n
    · omega
    apply args_stop hn h hv hc (simple_simple rs ws)
    intro s' h'
    simp only [flatMap_nil, map_nil, append_nil]
    exact ⟨h', hc⟩
  | cons a as ih =>
    obtain ⟨w, rs'⟩ := a
    rw [argToks_cons] at h hf
    simp only [cons_append, append_assoc, length_cons] at h hf hl
    rcases n with _ | n
    · omega
    apply args_step hn h hc (simple_simple rs ws) (by omega)
    intro c1 s1 h1 hc1
    have hstop : starts ['<', '>'] (argToks as ++ v) = false :=
      starts_args (by decide) (hv.not_starts (by decide)) as
    apply wp_seq (complete_redirs hn h1 hstop (by omega))
    rintro c2 s2 ⟨h2, hc2⟩
    have hc2 := hc2 _ hc1
    rw [simple_addArg] at hc2
    have hlen : (ws ++ [w]).length = ws.length + 1 := by simp
    rw [length_append] at hf
    rw [← hlen]
    apply wp_mono (ih h2 hc2 (by omega) (by omega))
    rintro c3 s3 ⟨h3, hc3⟩
    rw [append_assoc, append_assoc] at hc3
    exact ⟨h3, hc3⟩

/-! ## background commands -/

lemma sound_back (hn : NUL ∉ t) (h : At t s ks) (hc : Spells t c T) (hf : ks.length + 1 ≤ n) :
    wp isPanic (parseback t n c) (fun c' s' => ∃ m v, ks = replicate m .amp ++ v ∧ At t s' v ∧
      Spells t c' (backs m T)) s := by
  induction n generalizing c s ks T with
  | zero => omega
  | succ n ih =>
    rw [parseback]
    refine wp_peek_seq hn h (by decide) fun s1 h1 => ?_
    by_cases hb : starts ['&'] ks = true
    · obtain ⟨v, rfl⟩ := starts_sym .amp (by decide) hb
      rw [if_pos hb]
      apply wp_seq (wp_gettoken hn h1)
      rintro tok s2 ⟨-, -, h2⟩
      simp only [length_cons] at hf
      apply wp_mono (ih h2 (.back hc) (by omega))
      rintro c3 s3 ⟨m, v', rfl, h3, hc3⟩
      exact ⟨m + 1, v', rfl, h3, hc3⟩
    · rw [if_neg hb]
      exact wp_pure ⟨0, ks, rfl, h1, hc⟩

lemma complete_back (hn : NUL ∉ t) {m : Nat} (h : At t s (replicate m .amp ++ v))
    (hv : starts ['&'] v = false) (hc : Spells t c T) (hf : (replicate m Tok.amp ++ v).length + 1 ≤ n) :
    wp (fun _ => False) (parseback t n c) (fun c' s' => At t s' v ∧ Spells t c' (backs m T)) s := by
  induction m generalizing c s n T with
  | zero =>
    rcases n with _ | n
    · omega
    rw [parseback]
    refine wp_peek_seq hn h (by decide) fun s1 h1 => ?_
    rw [if_neg (by rw [replicate_zero, nil_append, hv]; exact nofun)]
    exact wp_pure ⟨h1, hc⟩
  | succ m ih =>
    rw [replicate_succ, cons_append] at h hf
    rw [length_cons] at hf
    rcases n with _ | n
    · omega
    rw [parseback]
    refine wp_peek_seq hn h (by decide) fun s1 h1 => ?_
    have hb : starts ['&'] (.amp :: (replicate m .amp ++ v)) = true := rfl
    rw [if_pos hb]
    apply wp_seq (wp_gettoken hn h1)
    rintro tok s2 ⟨-, -, h2⟩
    exact ih h2 (.back hc) (by omega)

/-! ## the nonterminals -/

namespace Sym

def parser (t : List Char) (n : Nat) : Sym → M Cmd
  | .line => parseline t n
  | .pipe => parsepipe t n
  | .exec => parseexec t n

/-- what can follow. -/
def stop : Sym → List Char
  | .line => [')']
  | .pipe => [')', '&', ';']
  | .exec => ['|', ')', '&', ';']

def depth : Sym → Nat
  | .line => 4
  | .pipe => 3
  | .exec => 2

end Sym

/-- what a function of the parser has done: it has taken a phrase. -/
def Took (t : List Char) (X : Sym) (ks : List Tok) (c : Cmd) (s : Nat) : Prop :=
  ∃ u v T, ks = u ++ v ∧ At t s v ∧ Gen X u T ∧ Spells t c T

lemma sound_exec (hn : NUL ∉ t) (h : At t s ks) (hf : 4 * ks.length + 2 ≤ n + 1)
    (ih : ∀ m < n, ∀ s ks, At t s ks → 4 * ks.length + 4 ≤ m → wp isPanic (parseline t m) (Took t .line ks) s) :
    wp isPanic (parseexec t (n + 1)) (Took t .exec ks) s := by
  rw [parseexec]
  refine wp_peek_seq hn h (by decide) fun s1 h1 => ?_
  by_cases hb : starts ['('] ks = true
  · rw [if_pos hb]
    obtain ⟨ks, rfl⟩ := starts_sym .lp (by decide) hb
    simp only [length_cons] at hf
    rcases n with _ | n
    · omega
    rw [parseblock]
    refine wp_peek_seq hn h1 (by decide) fun s2 h2 => ?_
    rw [if_pos hb]
    apply wp_seq (wp_gettoken hn h2)
    rintro tok s3 ⟨-, -, h3⟩
    apply wp_seq (ih n (by omega) _ _ h3 (by omega))
    rintro c4 s4 ⟨u, v, T, rfl, h4, hg, hc⟩
    refine wp_peek_seq hn h4 (by decide) fun s5 h5 => ?_
    by_cases hb' : starts [')'] v = true
    · rw [if_pos hb']
      obtain ⟨v, rfl⟩ := starts_sym .rp (by decide) hb'
      apply wp_seq (wp_gettoken hn h5)
      rintro tok s6 ⟨-, -, h6⟩
      simp only [length_append, length_cons] at hf
      apply wp_mono (sound_redirs hn h6 (by omega))
      rintro c7 s7 ⟨rs, v', rfl, h7, hc7⟩
      refine ⟨_, v', _, ?_, h7, .block rs hg, hc7 T hc⟩
      simp only [cons_append, append_assoc]
    · rw [if_neg hb']
      exact wp_throw trivial
  · rw [if_neg hb]
    apply wp_seq (sound_redirs hn h1 (by omega))
    rintro c2 s2 ⟨rs, v, rfl, h2, hc2⟩
    have hexec : Spells t execcmd (.exec []) := Spells.exec [] nofun (by decide)
    rw [length_append] at hf
    apply wp_mono (sound_args hn h2 (hc2 _ hexec) (by decide) (by omega))
    rintro c3 s3 ⟨as, v', rfl, h3, hl, hc3⟩
    refine ⟨_, v', _, ?_, h3, .exec rs as (by simpa using hl), hc3⟩
    rw [append_assoc]

lemma sound (hn : NUL ∉ t) (X : Sym) (h : At t s ks) (hf : 4 * ks.length + X.depth ≤ n) :
    wp isPanic (X.parser t n) (Took t X ks) s := by
  induction n using Nat.strong_induction_on generalizing X s ks with
  | _ n ih =>
    have hpos : 0 < X.depth := by cases X <;> decide
    rcases n with _ | n
    · omega
    cases X with
    | line =>
      have hf : 4 * ks.length + 4 ≤ n + 1 := hf
      show wp isPanic (parseline t (n + 1)) _ s
      rw [parseline]
      apply wp_seq (ih n (Nat.lt_succ_self n) .pipe h (by show _ + 3 ≤ n; omega))
      rintro c1 s1 ⟨u, v, T, rfl, h1, hg, hc⟩
      rw [length_append] at hf
      apply wp_seq (sound_back hn h1 hc (by omega))
      rintro c2 s2 ⟨m, v, rfl, h2, hc2⟩
      refine wp_peek_seq hn h2 (by decide) fun s3 h3 => ?_
      by_cases hb : starts [';'] v = true
      · rw [if_pos hb]
        obtain ⟨v, rfl⟩ := starts_sym .semi (by decide) hb
        apply wp_seq (wp_gettoken hn h3)
        rintro tok s4 ⟨-, -, h4⟩
        simp only [length_append, length_cons] at hf
        apply wp_seq (ih n (Nat.lt_succ_self n) .line h4 (by show _ + 4 ≤ n; omega))
        rintro c5 s5 ⟨u', v', T', rfl, h5, hg', hc'⟩
        refine wp_pure ⟨_, v', _, ?_, h5, .list m hg hg', .list hc2 hc'⟩
        simp only [append_assoc, cons_append]
      · rw [if_neg hb]
        refine wp_pure ⟨_, v, _, ?_, h3, .line m hg, hc2⟩
        rw [append_assoc]
    | pipe =>
      have hf : 4 * ks.length + 3 ≤ n + 1 := hf
      show wp isPanic (parsepipe t (n + 1)) _ s
      rw [parsepipe]
      apply wp_seq (ih n (Nat.lt_succ_self n) .exec h (by show _ + 2 ≤ n; omega))
      rintro c1 s1 ⟨u, v, T, rfl, h1, hg, hc⟩
      refine wp_peek_seq hn h1 (by decide) fun s2 h2 => ?_
      by_cases hb : starts ['|'] v = true
      · rw [if_pos hb]
        obtain ⟨v, rfl⟩ := starts_sym .bar (by decide) hb
        apply wp_seq (wp_gettoken hn h2)
        rintro tok s3 ⟨-, -, h3⟩
        simp only [length_append, length_cons] at hf
        apply wp_seq (ih n (Nat.lt_succ_self n) .pipe h3 (by show _ + 3 ≤ n; omega))
        rintro c4 s4 ⟨u', v', T', rfl, h4, hg', hc'⟩
        refine wp_pure ⟨_, v', _, ?_, h4, .pipe hg hg', .pipe hc hc'⟩
        simp only [append_assoc, cons_append]
      · rw [if_neg hb]
        exact wp_pure ⟨u, v, T, rfl, h2, .one hg, hc⟩
    | exec => exact sound_exec hn h hf fun m hm s ks h hf => ih m (by omega) .line h hf

lemma starts_redirs {l : List Char} (hl : '<' ∉ l ∧ '>' ∉ l) (hv : starts l v = false) (rs : List Redir) :
    starts l (redirToks rs ++ v) = false := by
  cases rs with
  | nil => exact hv
  | cons r =>
    obtain ⟨o, f⟩ := r
    cases o with
    | lt => exact decide_eq_false hl.1
    | gt | gtgt => exact decide_eq_false hl.2

lemma ends_amps (m : Nat) (hv : Ends [')', '&', ';'] v) : Ends [')', '&', ';'] (replicate m .amp ++ v) := by
  cases m with
  | zero => exact hv
  | succ => exact .inr rfl

lemma complete (hn : NUL ∉ t) {X : Sym} (hg : Gen X u T) :
    ∀ n s v, At t s (u ++ v) → Ends X.stop v → 4 * (u ++ v).length + X.depth ≤ n →
      wp (fun _ => False) (X.parser t n) (fun c s' => At t s' v ∧ Spells t c T) s := by
  induction hg with
  | exec rs as hl =>
    intro n s v h hv hf
    have hf : 4 * (redirToks rs ++ argToks as ++ v).length + 2 ≤ n := hf
    rcases n with _ | n
    · omega
    show wp _ (parseexec t (n + 1)) _ s
    rw [append_assoc] at h hf
    have hlp : starts ['('] (redirToks rs ++ (argToks as ++ v)) = false :=
      starts_redirs (by decide) (starts_args (by decide) (hv.not_starts (by decide)) as) rs
    have hstop : starts ['<', '>'] (argToks as ++ v) = false :=
      starts_args (by decide) (hv.not_starts (by decide)) as
    rw [parseexec]
    refine wp_peek_seq hn h (by decide) fun s1 h1 => ?_
    rw [if_neg (by rw [hlp]; exact nofun)]
    apply wp_seq (complete_redirs hn h1 hstop (by omega))
    rintro c2 s2 ⟨h2, hc2⟩
    have hexec : Spells t execcmd (.exec []) := Spells.exec [] nofun (by decide)
    rw [length_append] at hf
    exact complete_args hn h2 hv (hc2 _ hexec) (by simpa using hl) (by omega)
  | @block u T rs _ ih =>
    intro n s v h hv hf
    have hf : 4 * (.lp :: (u ++ .rp :: redirToks rs) ++ v).length + 2 ≤ n := hf
    simp only [cons_append, append_assoc] at h hf
    obtain ⟨n, rfl⟩ : ∃ m, n = m + 2 := ⟨n - 2, by omega⟩
    show wp _ (parseexec t (n + 1 + 1)) _ s
    have hlp : starts ['('] (.lp :: (u ++ .rp :: (redirToks rs ++ v))) = true := rfl
    have hrp : starts [')'] (.rp :: (redirToks rs ++ v)) = true := rfl
    rw [parseexec]
    refine wp_peek_seq hn h (by decide) fun s1 h1 => ?_
    rw [if_pos hlp, parseblock]
    refine wp_peek_seq hn h1 (by decide) fun s2 h2 => ?_
    rw [if_pos hlp]
    apply wp_seq (wp_gettoken hn h2)
    rintro tok s3 ⟨-, -, h3⟩
    simp only [length_cons] at hf
    apply wp_seq (ih n s3 _ h3 (.inr hrp) (by show _ + 4 ≤ n; omega))
    rintro c4 s4 ⟨h4, hc4⟩
    refine wp_peek_seq hn h4 (by decide) fun s5 h5 => ?_
    rw [if_pos hrp]
    apply wp_seq (wp_gettoken hn h5)
    rintro tok s6 ⟨-, -, h6⟩
    simp only [length_append, length_cons] at hf
    refine wp_mono (complete_redirs hn h6 (hv.not_starts (by decide)) ?_) ?_
    · rw [length_append]
      omega
    · rintro c7 s7 ⟨h7, hc7⟩
      exact ⟨h7, hc7 T hc4⟩
  | @one u T _ ih =>
    intro n s v h hv hf
    have hf : 4 * (u ++ v).length + 3 ≤ n := hf
    rcases n with _ | n
    · omega
    show wp _ (parsepipe t (n + 1)) _ s
    rw [parsepipe]
    apply wp_seq (ih n s v h (hv.mono (by decide)) (by show _ + 2 ≤ n; omega))
    rintro c1 s1 ⟨h1, hc1⟩
    refine wp_peek_seq hn h1 (by decide) fun s2 h2 => ?_
    rw [if_neg (by rw [hv.not_starts (by decide)]; exact nofun)]
    exact wp_pure ⟨h2, hc1⟩
  | @pipe u u' T T' _ _ ih ih' =>
    intro n s v h hv hf
    have hf : 4 * (u ++ .bar :: u' ++ v).length + 3 ≤ n := hf
    simp only [append_assoc, cons_append] at h hf
    rcases n with _ | n
    · omega
    show wp _ (parsepipe t (n + 1)) _ s
    have hbar : starts ['|'] (.bar :: (u' ++ v)) = true := rfl
    rw [parsepipe]
    apply wp_seq (ih n s _ h (.inr rfl) (by show _ + 2 ≤ n; omega))
    rintro c1 s1 ⟨h1, hc1⟩
    refine wp_peek_seq hn h1 (by decide) fun s2 h2 => ?_
    rw [if_pos hbar]
    apply wp_seq (wp_gettoken hn h2)
    rintro tok s3 ⟨-, -, h3⟩
    rw [length_append, length_cons] at hf
    apply wp_seq (ih' n s3 v h3 hv (by show _ + 3 ≤ n; omega))
    rintro c4 s4 ⟨h4, hc4⟩
    exact wp_pure ⟨h4, .pipe hc1 hc4⟩
  | @line u T m _ ih =>
    intro n s v h hv hf
    have hf : 4 * (u ++ replicate m Tok.amp ++ v).length + 4 ≤ n := hf
    rw [append_assoc] at h hf
    rcases n with _ | n
    · omega
    show wp _ (parseline t (n + 1)) _ s
    rw [parseline]
    apply wp_seq (ih n s _ h (ends_amps m (hv.mono (by decide))) (by show _ + 3 ≤ n; omega))
    rintro c1 s1 ⟨h1, hc1⟩
    rw [length_append] at hf
    apply wp_seq (complete_back hn h1 (hv.not_starts (by decide)) hc1 (by omega))
    rintro c2 s2 ⟨h2, hc2⟩
    refine wp_peek_seq hn h2 (by decide) fun s3 h3 => ?_
    rw [if_neg (by rw [hv.not_starts (by decide)]; exact nofun)]
    exact wp_pure ⟨h3, hc2⟩
  | @list u u' T T' m _ _ ih ih' =>
    intro n s v h hv hf
    have hf : 4 * (u ++ (replicate m Tok.amp ++ Tok.semi :: u') ++ v).length + 4 ≤ n := hf
    simp only [append_assoc, cons_append] at h hf
    rcases n with _ | n
    · omega
    show wp _ (parseline t (n + 1)) _ s
    have hsemi : starts [';'] (.semi :: (u' ++ v)) = true := rfl
    rw [parseline]
    apply wp_seq (ih n s _ h (ends_amps m (.inr rfl)) (by show _ + 3 ≤ n; omega))
    rintro c1 s1 ⟨h1, hc1⟩
    rw [length_append] at hf
    apply wp_seq (complete_back hn h1 rfl hc1 (by omega))
    rintro c2 s2 ⟨h2, hc2⟩
    refine wp_peek_seq hn h2 (by decide) fun s3 h3 => ?_
    rw [if_pos hsemi]
    apply wp_seq (wp_gettoken hn h3)
    rintro tok s4 ⟨-, -, h4⟩
    rw [length_append, length_cons] at hf
    apply wp_seq (ih' n s4 v h4 hv (by show _ + 4 ≤ n; omega))
    rintro c5 s5 ⟨h5, hc5⟩
    exact wp_pure ⟨h5, .list hc2 hc5⟩

end Xv6.Sh
