import LetExit.Program.Grammar

/-!
# Reading statements

A cursor walks over a list of tokens. A statement is recognised by its first
tokens: `finu (` or `jen` name `=`. From there each token has to fit, and the
first that does not is reported. A cursor that met an error stays at the
offending token, so reading can be taken up again from there.
-/

set_option autoImplicit false

namespace LetExit

structure SyntaxError where
  pos : Int
  complaint : Bytes
  got : Option Token
  deriving DecidableEq, Repr

def SyntaxError.message (e : SyntaxError) : Bytes :=
  match e.got with
  | none => e.complaint ++ utf8 ", got end of input"
  | some t => e.complaint ++ utf8 ", got " ++ t.describe

namespace Parser

inductive Wanted where
  | statement
  | expression
  | token (kind : Kind)
  deriving DecidableEq, Repr

def Wanted.complaint : Wanted → Bytes
  | .statement => utf8 "invalid statement"
  | .expression => utf8 "invalid expression"
  | .token kind => utf8 "expected " ++ kind.name

structure Cursor where
  rest : List Token
  last : Int
  deriving DecidableEq, Repr

def Cursor.ofTokens (tokens : List Token) : Cursor :=
  ⟨tokens, (tokens.getLast?.map Token.stop).getD 0⟩

/-- An error points at the next token, or behind the last one if none is left. -/
def Cursor.error (c : Cursor) (wanted : Wanted) : SyntaxError :=
  match c.rest with
  | [] => ⟨c.last, wanted.complaint, none⟩
  | t :: _ => ⟨t.pos, wanted.complaint, some t⟩

abbrev Step (α : Type) := Except SyntaxError α × Cursor

def Cursor.fail {α : Type} (c : Cursor) (wanted : Wanted) : Step α :=
  (.error (c.error wanted), c)

def Step.andThen {α β : Type} (step : Step α) (next : α → Cursor → Step β) : Step β :=
  match step with
  | (.error e, c) => (.error e, c)
  | (.ok a, c) => next a c

def expect (kind : Kind) (c : Cursor) : Step Token :=
  match c.rest with
  | [] => c.fail (.token kind)
  | t :: rest =>
    if t.kind = kind then (.ok t, { c with rest := rest }) else c.fail (.token kind)

def expr (c : Cursor) : Step Expr :=
  match c.rest with
  | [] => c.fail .expression
  | t :: rest =>
    match t.kind with
    | .intLit => (.ok (.literal t.span t.text), { c with rest := rest })
    | .ident => (.ok (.var t.toName), { c with rest := rest })
    | _ => c.fail .expression

def exitFrom (first : Token) (c : Cursor) : Step Stmt :=
  (expr c).andThen fun status c =>
  (expect .closeParen c).andThen fun _ c =>
  (expect .semi c).andThen fun semi c =>
  (.ok (.exit ⟨first.pos, semi.stop⟩ status), c)

def declareFrom (first name : Token) (c : Cursor) : Step Stmt :=
  (expr c).andThen fun value c =>
  (expect .semi c).andThen fun semi c =>
  (.ok (.declare ⟨first.pos, semi.stop⟩ name.toName value), c)

def stmt (c : Cursor) : Step Stmt :=
  match c.rest with
  | first :: second :: rest =>
    if first.kind = .exit ∧ second.kind = .openParen then exitFrom first { c with rest := rest }
    else match rest with
      | third :: rest =>
        if first.kind = .letWord ∧ second.kind = .ident ∧ third.kind = .eq then
          declareFrom first second { c with rest := rest }
        else c.fail .statement
      | [] => c.fail .statement
  | _ => c.fail .statement

theorem expr_length_le (c : Cursor) : (expr c).2.rest.length ≤ c.rest.length := by
  unfold expr Cursor.fail
  cases h : c.rest with
  | nil => simp [h]
  | cons t rest => dsimp only; split <;> simp [h]

theorem expect_length_le (kind : Kind) (c : Cursor) :
    (expect kind c).2.rest.length ≤ c.rest.length := by
  unfold expect Cursor.fail
  cases h : c.rest with
  | nil => simp [h]
  | cons t rest => dsimp only; split <;> simp [h]

theorem andThen_length_le {α β : Type} {n : Nat} {step : Step α} {next : α → Cursor → Step β}
    (hs : step.2.rest.length ≤ n)
    (hn : ∀ a c, c.rest.length ≤ n → (next a c).2.rest.length ≤ n) :
    (step.andThen next).2.rest.length ≤ n := by
  unfold Step.andThen
  split
  · exact hs
  · exact hn _ _ hs

theorem exitFrom_length_le (first : Token) (c : Cursor) :
    (exitFrom first c).2.rest.length ≤ c.rest.length := by
  refine andThen_length_le (expr_length_le c) fun _ c1 h1 => ?_
  refine andThen_length_le (Nat.le_trans (expect_length_le _ c1) h1) fun _ c2 h2 => ?_
  exact andThen_length_le (Nat.le_trans (expect_length_le _ c2) h2) fun _ _ h3 => h3

theorem declareFrom_length_le (first name : Token) (c : Cursor) :
    (declareFrom first name c).2.rest.length ≤ c.rest.length := by
  refine andThen_length_le (expr_length_le c) fun _ c1 h1 => ?_
  exact andThen_length_le (Nat.le_trans (expect_length_le _ c1) h1) fun _ _ h2 => h2

theorem stmt_length_lt {c c' : Cursor} {s : Stmt} (h : stmt c = (.ok s, c')) :
    c'.rest.length < c.rest.length := by
  unfold stmt at h
  split at h
  · rename_i first second rest hrest
    split at h
    · have := exitFrom_length_le first { c with rest := rest }
      rw [h] at this
      simp only [hrest, List.length_cons] at this ⊢
      omega
    · split at h
      · rename_i third rest'
        split at h
        · have := declareFrom_length_le first second { c with rest := rest' }
          rw [h] at this
          simp only [hrest, List.length_cons] at this ⊢
          omega
        · simp [Cursor.fail] at h
      · simp [Cursor.fail] at h
  · simp [Cursor.fail] at h

def stmts (c : Cursor) : Step (List Stmt) :=
  if c.rest = [] then (.ok [], c)
  else match h : stmt c with
    | (.error e, c') => (.error e, c')
    | (.ok s, c') =>
      have := stmt_length_lt h
      match stmts c' with
      | (.error e, c'') => (.error e, c'')
      | (.ok ss, c'') => (.ok (s :: ss), c'')
termination_by c.rest.length

def program (c : Cursor) : Step Program :=
  (stmts c).andThen fun ss c => (.ok ⟨ss⟩, c)

end Parser

def parse (tokens : List Token) : Except SyntaxError Program :=
  (Parser.program (Parser.Cursor.ofTokens tokens)).1

/-- The outcomes of reading a program `calls` times with one and the same cursor. -/
def Parser.repeated : Nat → Cursor → List (Except SyntaxError Program)
  | 0, _ => []
  | calls + 1, c =>
    let (outcome, c') := program c
    outcome :: repeated calls c'

end LetExit
