import LetExit.Text.Blank
import LetExit.Token.Lexer
import LetExit.Program.Parser
import LetExit.Variable

/-!
# Errors

An error is a tree. Its leaves are the three faults a source text can have,
which know their position, and plain messages. Inner nodes put a context in
front of an error, report a failed command with its output, or hold two
errors at once. What an error is about is found by searching it from the
outside in and from left to right.
-/

set_option autoImplicit false

namespace LetExit

inductive Error where
  | lexical (e : LexicalError)
  | grammar (e : SyntaxError)
  | semantic (e : SemanticError)
  | plain (text : Bytes)
  | wrap (context : Bytes) (inner : Error)
  | command (output : Bytes) (inner : Error)
  | both (first second : Error)
  deriving DecidableEq, Repr

namespace Error

/-- The full text of an error. An empty context adds nothing, nor does the output of a
command that is all blank. -/
def message : Error → Bytes
  | .lexical e => e.message
  | .grammar e => e.message
  | .semantic e => e.message
  | .plain text => if text = [] then utf8 "(no message)" else text
  | .wrap context inner =>
    if context = [] then inner.message else context ++ utf8 ": " ++ inner.message
  | .command output inner =>
    if Text.trim output = [] then inner.message
    else inner.message ++ utf8 ": " ++ Text.trim output
  | .both first second => first.message ++ [Bytes.newline] ++ second.message

def join : List (Option Error) → Option Error
  | [] => none
  | none :: rest => join rest
  | some e :: rest =>
    match join rest with
    | none => some e
    | some others => some (.both e others)

/-- What the first node that has an answer says. -/
def search {α : Type} (answer : Error → Option α) (e : Error) : Option α :=
  match answer e with
  | some a => some a
  | none =>
    match e with
    | .wrap _ inner => search answer inner
    | .command _ inner => search answer inner
    | .both first second =>
      match search answer first with
      | some a => some a
      | none => search answer second
    | _ => none

def lexical? : Error → Option LexicalError
  | .lexical e => some e
  | _ => none

def grammar? : Error → Option SyntaxError
  | .grammar e => some e
  | _ => none

def semantic? : Error → Option SemanticError
  | .semantic e => some e
  | _ => none

def ownPosition? : Error → Option Int
  | .lexical e => some e.pos
  | .grammar e => some e.pos
  | .semantic e => some e.pos
  | _ => none

inductive Category where
  | lexical
  | grammar
  | semantic
  | general
  deriving DecidableEq, Repr

def Category.name : Category → Bytes
  | .lexical => utf8 "lexical error"
  | .grammar => utf8 "syntax error"
  | .semantic => utf8 "semantic error"
  | .general => utf8 "error"

def category (e : Error) : Category :=
  if (e.search lexical?).isSome then .lexical
  else if (e.search grammar?).isSome then .grammar
  else if (e.search semantic?).isSome then .semantic
  else .general

def position? (e : Error) : Option Int := e.search ownPosition?

/-- The first fault that has a position, without its contexts; else the error itself. -/
def cause (e : Error) : Error :=
  (e.search fun node => (ownPosition? node).map fun _ => node).getD e

end Error

end LetExit
