import Xv6.Lib.Wp
import Mathlib.Data.List.Basic

/-!
# The parser of the shell (`sh.c`)

The text is a list of characters `t` without NUL, and `*s` is NUL at its end `es`. A pointer into the text is
its position. The functions share the cursor `*ps`, which is their state; `fuel` bounds the depth of
calls and the number of turns of a loop.

`struct execcmd` has its two arrays of `MAXARGS` pointers, and storing behind their end is the failure `index`.
While `parseexec` runs, its `cmd` points to the innermost node of `ret`.
-/

namespace Xv6.Sh
open Lib

abbrev MAXARGS : Nat := 10

abbrev O_RDONLY : Nat := 0x000
abbrev O_WRONLY : Nat := 0x001
abbrev O_CREATE : Nat := 0x200

def NUL : Char := '\x00'

/-- the end of the parser other than by returning. -/
inductive Halt where
  | fuel
  | index
  | panic (msg : String)
  deriving DecidableEq

/-- `struct cmd` and its variants. -/
inductive Cmd where
  | exec (argv eargv : List (Option Nat))
  | redir (cmd : Cmd) (file efile mode fd : Nat)
  | pipe (left right : Cmd)
  | list (left right : Cmd)
  | back (cmd : Cmd)

/-- a parser moves the cursor `*ps`. -/
abbrev M (α : Type) := StateT Nat (Except Halt) α

def whitespace : List Char := [' ', '\t', '\r', '\n', '\x0b']

def symbols : List Char := ['<', '|', '>', '&', ';', '(', ')']

def isWhite (c : Char) : Bool := c ∈ whitespace

/-- a character of a word. -/
def isWord (c : Char) : Bool := c ∉ whitespace ∧ c ∉ symbols

/-- `while(s < es && f(*s)) s++`, on the rest of the text. -/
def scan (f : Char → Bool) : List Char → Nat → Nat
  | [], s => s
  | c :: cs, s => if f c then scan f cs (s + 1) else s

/-- what `gettoken` returns, with `*q` and `*eq`. -/
structure Token where
  ret : Char
  q : Nat
  eq : Nat

section
variable (t : List Char)

/-- `*s` -/
def deref (s : Nat) : Char := t.getD s NUL

def skip (s : Nat) : Nat := scan isWhite (t.drop s) s

/-- the `switch` of `gettoken`: the token and its end. -/
def token (s : Nat) : Char × Nat :=
  if deref t s = NUL then (NUL, s)
  else if deref t s ∈ ['|', '(', ')', ';', '&', '<'] then (deref t s, s + 1)
  else if deref t s = '>' then
    if deref t (s + 1) = '>' then ('+', s + 2) else ('>', s + 1)
  else ('a', scan isWord (t.drop s) s)

def gettoken : M Token := fun s =>
  let q := skip t s
  let r := token t q
  .ok (⟨r.1, q, r.2⟩, skip t r.2)

def peek (toks : List Char) : M Bool := fun s =>
  let s := skip t s
  .ok (deref t s ≠ NUL ∧ deref t s ∈ toks, s)

/-! ## the constructors -/

/-- `memset` leaves null pointers. -/
def execcmd : Cmd := .exec (List.replicate MAXARGS none) (List.replicate MAXARGS none)

/-- `cmd->argv[i] = q; cmd->eargv[i] = eq`, on the innermost node. -/
def Cmd.store (i : Nat) (q eq : Option Nat) : Cmd → Except Halt Cmd
  | .redir c file efile mode fd => (c.store i q eq).map (.redir · file efile mode fd)
  | .exec argv eargv =>
    if i < MAXARGS then .ok (.exec (argv.set i q) (eargv.set i eq)) else .error .index
  | _ => .error .index

/-! ## the parser -/

def parseredirs : Nat → Cmd → M Cmd
  | 0, _ => throw .fuel
  | n + 1, cmd => do
    if ← peek t ['<', '>'] then
      let tok ← gettoken t
      let w ← gettoken t
      if w.ret ≠ 'a' then
        throw (.panic "missing file for redirection")
      else if tok.ret = '<' then
        parseredirs n (.redir cmd w.q w.eq O_RDONLY 0)
      else if tok.ret = '>' then
        parseredirs n (.redir cmd w.q w.eq (O_WRONLY ||| O_CREATE) 1)
      else if tok.ret = '+' then
        parseredirs n (.redir cmd w.q w.eq (O_WRONLY ||| O_CREATE) 1)
      else
        parseredirs n cmd
    else
      return cmd

/-- the loop of `parseexec`, and what follows it. -/
def parseargs : Nat → Cmd → Nat → M Cmd
  | 0, _, _ => throw .fuel
  | n + 1, ret, argc => do
    if ← peek t ['|', ')', '&', ';'] then
      ret.store argc none none
    else
      let tok ← gettoken t
      if tok.ret = NUL then
        ret.store argc none none
      else if tok.ret ≠ 'a' then
        throw (.panic "syntax")
      else
        let ret ← ret.store argc (some tok.q) (some tok.eq)
        if argc + 1 ≥ MAXARGS then
          throw (.panic "too many args")
        else
          let ret ← parseredirs t n ret
          parseargs n ret (argc + 1)

/-- the loop of `parseline`. -/
def parseback : Nat → Cmd → M Cmd
  | 0, _ => throw .fuel
  | n + 1, cmd => do
    if ← peek t ['&'] then
      let _ ← gettoken t
      parseback n (.back cmd)
    else
      return cmd

mutual

def parseline : Nat → M Cmd
  | 0 => throw .fuel
  | n + 1 => do
    let cmd ← parsepipe n
    let cmd ← parseback t n cmd
    if ← peek t [';'] then
      let _ ← gettoken t
      let right ← parseline n
      return .list cmd right
    else
      return cmd

def parsepipe : Nat → M Cmd
  | 0 => throw .fuel
  | n + 1 => do
    let cmd ← parseexec n
    if ← peek t ['|'] then
      let _ ← gettoken t
      let right ← parsepipe n
      return .pipe cmd right
    else
      return cmd

def parseexec : Nat → M Cmd
  | 0 => throw .fuel
  | n + 1 => do
    if ← peek t ['('] then
      parseblock n
    else
      let ret ← parseredirs t n execcmd
      parseargs t n ret 0

def parseblock : Nat → M Cmd
  | 0 => throw .fuel
  | n + 1 => do
    if ← peek t ['('] then
      let _ ← gettoken t
      let cmd ← parseline n
      if ← peek t [')'] then
        let _ ← gettoken t
        parseredirs t n cmd
      else
        throw (.panic "syntax - missing )")
    else
      throw (.panic "parseblock")

end

/-! ## the end of the words -/

/-- `for(i=0; argv[i]; i++) *eargv[i] = 0` -/
def nulargs : List (Option Nat) → List (Option Nat) → List Char → Except Halt (List Char)
  | some _ :: argv, some e :: eargv, buf => nulargs argv eargv (buf.set e NUL)
  | none :: _, _, buf => .ok buf
  | _, _, _ => .error .index

def nulterminate : Cmd → List Char → Except Halt (List Char)
  | .exec argv eargv, buf => nulargs argv eargv buf
  | .redir c _ efile _ _, buf => do
    let buf ← nulterminate c buf
    return buf.set efile NUL
  | .pipe l r, buf => do
    let buf ← nulterminate l buf
    nulterminate r buf
  | .list l r, buf => do
    let buf ← nulterminate l buf
    nulterminate r buf
  | .back c, buf => nulterminate c buf

/-- the command, and the text with the words' ends in it. -/
def parsecmd (fuel : Nat) : Except Halt (Cmd × List Char) := do
  let (cmd, s) ← parseline t fuel 0
  let (_, s) ← peek t [] s
  if s ≠ t.length then
    .error (.panic "syntax")
  else
    let buf ← nulterminate cmd (t ++ [NUL])
    return (cmd, buf)

end

end Xv6.Sh
