import LetExit.Program
import LetExit.Error

/-!
# Writing programs

The canonical text of a program has one statement a line and one space
around the words of a declaration. A foreign node has no text: the first one
met is reported with the place it was found in.
-/

set_option autoImplicit false

namespace LetExit

inductive Node where
  | program (program : Program)
  | stmt (stmt : Stmt)
  | expr (expr : Expr)
  | absent
  deriving DecidableEq, Repr

namespace Printer

def expr : Expr → Except Foreign Bytes
  | .literal _ digits => .ok digits
  | .var name => .ok name.text
  | .foreign node => .error node

/-- The foreign node is the statement itself or stands for its expression. -/
inductive Fault where
  | stmt (node : Foreign)
  | expr (node : Foreign)
  deriving DecidableEq, Repr

def stmt : Stmt → Except Fault Bytes
  | .exit _ status =>
    match expr status with
    | .error node => .error (.expr node)
    | .ok e => .ok (utf8 "finu(" ++ e ++ utf8 ");")
  | .declare _ name value =>
    match expr value with
    | .error node => .error (.expr node)
    | .ok e => .ok (utf8 "jen " ++ name.text ++ utf8 " = " ++ e ++ utf8 ";")
  | .foreign node => .error (.stmt node)

def stmtsFrom (i : Nat) : List Stmt → Except (Nat × Fault) Bytes
  | [] => .ok []
  | s :: rest =>
    match stmt s with
    | .error fault => .error (i, fault)
    | .ok line =>
      match stmtsFrom (i + 1) rest with
      | .error e => .error e
      | .ok lines => .ok (line ++ [Bytes.newline] ++ lines)

def program (p : Program) : Except (Nat × Fault) Bytes := stmtsFrom 0 p.stmts

def unsupportedExpr (node : Foreign) : Error := .plain (utf8 "unsupported expr: " ++ node.typeName)

def Fault.toError : Fault → Error
  | .stmt node => .plain (utf8 "unsupported stmt: " ++ node.typeName)
  | .expr node => .wrap (utf8 "expr") (unsupportedExpr node)

def programError (e : Nat × Fault) : Error :=
  .wrap (utf8 "stmt " ++ Bytes.ofNat e.1) e.2.toError

end Printer

def format : Node → Except Error Bytes
  | .program p => (Printer.program p).mapError Printer.programError
  | .stmt s => (Printer.stmt s).mapError Printer.Fault.toError
  | .expr e => (Printer.expr e).mapError Printer.unsupportedExpr
  | .absent => .error (.plain (utf8 "unsupported type: " ++ Foreign.absent.typeName))

def formatOnto (text : Bytes) (node : Node) : Except Error Bytes :=
  (format node).map (text ++ ·)

end LetExit
