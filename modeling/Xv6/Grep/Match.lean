import Mathlib.Computability.Language

/-!
# The matcher of `grep.c`

A string is the list of its characters before the 0. `matchhere` and `matchstar` call each other; the loop of `matchstar`
is `star`, which gets `matchhere` of the rest of the pattern.

What a pattern means is given as a language:

* `letter c`      the one-letter words that `c` stands for, all of them if `c` is `.`;
* `denotes re`    the words of the pattern, read from left to right;
* `atEnd re`      the pattern ends in a `$`, so that the word has to end the text.
-/

namespace Xv6.Grep
open List
open Computability

/-! ## the code -/

/-- the loop of `matchstar`; `here` is `matchhere(re, ·)`. -/
def star (here : List Char → Bool) (c : Char) : List Char → Bool
  | [] => here []
  | x :: text => here (x :: text) || ((x == c || c == '.') && star here c text)

def matchhere : List Char → List Char → Bool
  | [], _ => true
  | c :: '*' :: re, text => star (matchhere re) c text
  | ['$'], text => text.isEmpty
  | _ :: _, [] => false
  | c :: re, x :: text => (c == '.' || c == x) && matchhere re text

def matchstar (c : Char) (re text : List Char) : Bool := star (matchhere re) c text

lemma matchhere_star (c : Char) (re text : List Char) : matchhere (c :: '*' :: re) text = matchstar c re text := rfl

/-- the loop of `match`. -/
def anywhere (re : List Char) : List Char → Bool
  | [] => matchhere re []
  | x :: text => matchhere re (x :: text) || anywhere re text

/-- `match(re, text)` -/
def match_ (re text : List Char) : Bool :=
  match re with
  | '^' :: re => matchhere re text
  | re => anywhere re text

/-! ## the language -/

def letter (c : Char) : Language Char := {w | ∃ x, (c = '.' ∨ x = c) ∧ w = [x]}

def denotes : List Char → Language Char
  | [] => 1
  | c :: '*' :: re => (letter c)∗ * denotes re
  | ['$'] => 1
  | c :: re => letter c * denotes re

def atEnd : List Char → Bool
  | [] => false
  | _ :: '*' :: re => atEnd re
  | ['$'] => true
  | _ :: re => atEnd re

lemma mem_letter {c : Char} {w : List Char} : w ∈ letter c ↔ ∃ x, (c = '.' ∨ x = c) ∧ w = [x] := Iff.rfl

lemma mem_letter_star {c : Char} {w : List Char} : w ∈ (letter c)∗ ↔ ∀ x ∈ w, c = '.' ∨ x = c := by
  rw [Language.mem_kstar]
  constructor
  · rintro ⟨ws, rfl, hw⟩ x hx
    obtain ⟨u, hu, hxu⟩ := mem_flatten.mp hx
    obtain ⟨y, hy, rfl⟩ := mem_letter.mp (hw u hu)
    rw [mem_singleton.mp hxu]
    exact hy
  · intro h
    refine ⟨w.map fun x => [x], ?_, fun u hu => ?_⟩
    · induction w with
      | nil => rfl
      | cons x w ih => simp [← ih fun y hy => h y (mem_cons_of_mem x hy)]
    · obtain ⟨x, hx, rfl⟩ := mem_map.mp hu
      exact ⟨x, h x hx, rfl⟩

/-- a word of the pattern stands at the beginning of the text. -/
def Starts (re text : List Char) : Prop :=
  ∃ w rest, text = w ++ rest ∧ w ∈ denotes re ∧ (atEnd re = true → rest = [])

lemma star_iff {here : List Char → Bool} {c : Char} {text : List Char} :
    star here c text = true ↔ ∃ w rest, text = w ++ rest ∧ (∀ x ∈ w, c = '.' ∨ x = c) ∧ here rest = true := by
  induction text with
  | nil =>
    simp only [star]
    constructor
    · exact fun h => ⟨[], [], rfl, by simp, h⟩
    · rintro ⟨w, rest, e, -, h⟩
      rw [(append_eq_nil_iff.mp e.symm).2] at h
      exact h
  | cons x text ih =>
    simp only [star, Bool.or_eq_true, Bool.and_eq_true, beq_iff_eq, ih]
    constructor
    · rintro (h | ⟨hx, w, rest, rfl, hw, h⟩)
      · exact ⟨[], x :: text, rfl, by simp, h⟩
      · refine ⟨x :: w, rest, rfl, fun y hy => ?_, h⟩
        rcases mem_cons.mp hy with rfl | hy
        · exact hx.symm
        · exact hw y hy
    · rintro ⟨w, rest, e, hw, h⟩
      cases w with
      | nil =>
        left
        rw [show x :: text = rest from e]
        exact h
      | cons y w =>
        obtain ⟨rfl, rfl⟩ := List.cons.inj e
        exact .inr ⟨(hw x mem_cons_self).symm, w, rest, rfl, fun z hz => hw z (mem_cons_of_mem _ hz), h⟩

lemma starts_star {c : Char} {re text : List Char} : Starts (c :: '*' :: re) text ↔
    ∃ w rest, text = w ++ rest ∧ (∀ x ∈ w, c = '.' ∨ x = c) ∧ Starts re rest := by
  simp only [Starts, denotes, atEnd, Language.mem_mul, mem_letter_star]
  constructor
  · rintro ⟨_, rest, rfl, ⟨u, hu, v, hv, rfl⟩, he⟩
    exact ⟨u, v ++ rest, append_assoc u v rest, hu, v, rest, rfl, hv, he⟩
  · rintro ⟨u, _, rfl, hu, v, rest, rfl, hv, he⟩
    exact ⟨u ++ v, rest, (append_assoc u v rest).symm, ⟨u, hu, v, hv, rfl⟩, he⟩

/-- a character of its own; `h1` and `h2` say that it is not `c*` and not the last `$`. -/
theorem starts_letter {c : Char} {re text : List Char} (h1 : ∀ re', re = '*' :: re' → False)
    (h2 : c = '$' → re = [] → False) : Starts (c :: re) text ↔
      ∃ x rest, text = x :: rest ∧ (c = '.' ∨ x = c) ∧ Starts re rest := by
  unfold Starts
  rw [denotes.eq_4 c re h1 h2, atEnd.eq_4 c re h1 h2]
  simp only [Language.mem_mul, mem_letter]
  constructor
  · rintro ⟨_, rest, rfl, ⟨_, ⟨x, hx, rfl⟩, v, hv, rfl⟩, he⟩
    exact ⟨x, v ++ rest, rfl, hx, v, rest, rfl, hv, he⟩
  · rintro ⟨x, _, rfl, hx, v, rest, rfl, hv, he⟩
    exact ⟨x :: v, rest, rfl, ⟨[x], ⟨x, hx, rfl⟩, v, hv, rfl⟩, he⟩

/-- **`matchhere`** finds the words of the pattern at the beginning of the text. -/
theorem matchhere_iff (re text : List Char) : matchhere re text = true ↔ Starts re text := by
  -- the recursion of the pattern, as in `denotes`; the text is cut in `star`
  induction re using atEnd.induct generalizing text with
  | case1 | case3 => simp [matchhere, Starts, denotes, atEnd]
  | case2 c re ih => simp only [matchhere_star, matchstar, star_iff, starts_star, ih]
  | case4 c re h1 h2 ih =>
    rw [starts_letter h1 h2]
    cases text with
    | nil => simp [matchhere]
    | cons x =>
      simp [matchhere, ih, eq_comm (a := x) (b := c)]

/-! ## the whole text -/

lemma anywhere_iff (re text : List Char) :
    anywhere re text = true ↔ ∃ before rest, text = before ++ rest ∧ Starts re rest := by
  induction text with
  | nil => simp [anywhere, matchhere_iff]
  | cons x text ih =>
    simp only [anywhere, Bool.or_eq_true, matchhere_iff, ih]
    constructor
    · rintro (h | ⟨before, rest, rfl, h⟩)
      · exact ⟨[], x :: text, rfl, h⟩
      · exact ⟨x :: before, rest, rfl, h⟩
    · rintro ⟨before, rest, e, h⟩
      cases before with
      | nil =>
        left
        rw [show x :: text = rest from e]
        exact h
      | cons y before => exact .inr ⟨before, rest, (List.cons.inj e).2, h⟩

/-- the pattern starts with `^`. -/
def atStart : List Char → Bool
  | '^' :: _ => true
  | _ => false

/-- the pattern without its `^`. -/
def body : List Char → List Char
  | '^' :: re => re
  | re => re

/-- **The matcher decides the language of its pattern.** -/
theorem match_decides_language (re text : List Char) : match_ re text = true ↔
    ∃ before w rest, text = before ++ w ++ rest ∧ (atStart re = true → before = []) ∧ w ∈ denotes (body re) ∧
      (atEnd (body re) = true → rest = []) := by
  unfold match_ atStart body
  split
  · rw [matchhere_iff]
    constructor
    · rintro ⟨w, rest, rfl, hw⟩
      exact ⟨[], w, rest, rfl, fun _ => rfl, hw⟩
    · rintro ⟨before, w, rest, rfl, hb, hw⟩
      rw [hb rfl]
      exact ⟨w, rest, rfl, hw⟩
  · rw [anywhere_iff]
    constructor
    · rintro ⟨before, _, rfl, w, rest, rfl, hw⟩
      exact ⟨before, w, rest, (append_assoc ..).symm, fun h => absurd h Bool.false_ne_true, hw⟩
    · rintro ⟨before, w, rest, rfl, -, hw⟩
      exact ⟨before, w ++ rest, append_assoc .., w, rest, rfl, hw⟩

example : match_ "^ab*.$".toList "abbbc".toList = true := by decide

end Xv6.Grep
