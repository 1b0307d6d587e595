import LetExit.Bytes

/-!
# Programs

A program is a list of statements. `jen x = e;` declares a variable and
`finu(e);` ends the run with a status. An expression is an integer literal
or the name of a variable. Every node keeps the span of source bytes it was
read from.

Trees can be built by hand as well, so a place for a statement or expression
may hold something that is neither. Of such a foreign node only the name of
its type is known, which is what messages about it show.
-/

set_option autoImplicit false

namespace LetExit

structure Span where
  pos : Int
  stop : Int
  deriving DecidableEq, Repr

def Span.shift (n : Int) (s : Span) : Span := ⟨s.pos + n, s.stop + n⟩

structure Foreign where
  typeName : Bytes
  deriving DecidableEq, Repr

namespace Foreign

/-- Nothing at all stands in the place. -/
def absent : Foreign := ⟨utf8 "<nil>"⟩

/-! A reference to a node stands where the node itself belongs. -/

def letReference : Foreign := ⟨utf8 "*ast.Let"⟩
def exitReference : Foreign := ⟨utf8 "*ast.Exit"⟩
def literalReference : Foreign := ⟨utf8 "*ast.IntLit"⟩
def nameReference : Foreign := ⟨utf8 "*ast.Ident"⟩

end Foreign

structure Name where
  span : Span
  text : Bytes
  deriving DecidableEq, Repr

inductive Expr where
  | literal (span : Span) (digits : Bytes)
  | var (name : Name)
  | foreign (node : Foreign)
  deriving DecidableEq, Repr

inductive Stmt where
  | declare (span : Span) (name : Name) (value : Expr)
  | exit (span : Span) (status : Expr)
  | foreign (node : Foreign)
  deriving DecidableEq, Repr

structure Program where
  stmts : List Stmt
  deriving DecidableEq, Repr

/-! The same node of a source text in which it stands `n` bytes further on. -/

def Name.shift (n : Int) (x : Name) : Name := { x with span := x.span.shift n }

def Expr.shift (n : Int) : Expr → Expr
  | .literal span digits => .literal (span.shift n) digits
  | .var name => .var (name.shift n)
  | .foreign node => .foreign node

def Stmt.shift (n : Int) : Stmt → Stmt
  | .declare span name value => .declare (span.shift n) (name.shift n) (value.shift n)
  | .exit span status => .exit (span.shift n) (status.shift n)
  | .foreign node => .foreign node

end LetExit
