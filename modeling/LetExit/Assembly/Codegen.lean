import LetExit.Assembly.Target
import LetExit.Program

/-!
# Code generation

A declaration leaves its value on the stack for the rest of the program, so
the slot of a variable is the number of words pushed before it and a read
reaches down from the top of the stack. The new name is in scope in its own
initialiser already, where it stands for the word about to be pushed. An
exit pops the status it has just pushed.

A name may be declared once and has to be declared before it is read. The
first statement that breaks a rule is reported.
-/

set_option autoImplicit false

namespace LetExit

/-- What generated code depends on besides the program: the target, and the path that
the build comments refer to. -/
structure Compiler where
  target : Target
  output : Bytes
  deriving DecidableEq, Repr

def Compiler.defaultOutput : Bytes := utf8 "./out.asm"

def Compiler.default : Compiler := ⟨Target.macos, Compiler.defaultOutput⟩

structure Object where
  text : Bytes
  vars : List Var
  exited : Bool
  deriving DecidableEq, Repr

namespace Codegen

inductive Fault where
  | semantic (e : SemanticError)
  | foreignStmt (node : Foreign)
  | foreignExpr (node : Foreign)
  deriving DecidableEq, Repr

def alreadyUsed : Bytes := utf8 "identifier already used"
def undeclared : Bytes := utf8 "undeclared identifier"

/-- The words on the stack, the variables declared so far with the newest first, and
whether an exit has been generated. -/
structure State where
  depth : Int
  vars : List Var
  exited : Bool
  deriving DecidableEq, Repr

def State.initial : State := ⟨0, [], false⟩

def State.find? (s : State) (name : Bytes) : Option Var := s.vars.find? (·.name == name)

/-- A declared variable gets the slot that the next push fills. -/
def State.declare (s : State) (name : Name) : State :=
  { s with vars := ⟨name.text, s.depth, name.span.pos⟩ :: s.vars }

def growth : Instr → Int
  | .push _ => 1
  | .pop _ => -1
  | _ => 0

/-- The state behind emitted code: every push and every pop moves the top of the stack. -/
def State.emit (s : State) (code : List Instr) : State :=
  { s with depth := code.foldl (fun depth i => depth + growth i) s.depth }

def State.displacement (s : State) (v : Var) : Int := (s.depth - v.slot - 1) * wordSize

def expr (s : State) : Expr → Except Fault (List Instr)
  | .literal _ digits => .ok [.mov .rax digits, .push (.reg .rax)]
  | .var name =>
    match s.find? name.text with
    | none => .error (.semantic ⟨name.span.pos, name.text, undeclared⟩)
    | some v => .ok [.push (.mem .rsp (s.displacement v))]
  | .foreign node => .error (.foreignExpr node)

def exitCall (t : Target) (status : Instr) : List Instr :=
  [.mov .rax t.exitNumber, status, .syscall]

def stmt (t : Target) (s : State) : Stmt → Except Fault (List Instr × State)
  | .declare _ name value =>
    if (s.find? name.text).isSome then
      .error (.semantic ⟨name.span.pos, name.text, alreadyUsed⟩)
    else
      match expr (s.declare name) value with
      | .error fault => .error fault
      | .ok code => .ok (code, (s.declare name).emit code)
  | .exit _ status =>
    match expr s status with
    | .error fault => .error fault
    | .ok code =>
      let whole := code ++ exitCall t (.pop .rdi)
      .ok (whole, { s.emit whole with exited := true })
  | .foreign node => .error (.foreignStmt node)

structure Failure where
  index : Nat
  fault : Fault
  deriving DecidableEq, Repr

def stmtsFrom (t : Target) (i : Nat) (s : State) :
    List Stmt → Except Failure (List Instr × State)
  | [] => .ok ([], s)
  | x :: rest =>
    match stmt t s x with
    | .error fault => .error ⟨i, fault⟩
    | .ok (code, s') =>
      match stmtsFrom t (i + 1) s' rest with
      | .error e => .error e
      | .ok (more, s'') => .ok (code ++ more, s'')

def defaultExit (t : Target) (s : State) : List Instr :=
  if s.exited then [] else exitCall t (.mov .rdi (utf8 "0"))

def listing (code : List Instr) : Bytes := code.flatMap Instr.line

theorem listing_append (code more : List Instr) :
    listing (code ++ more) = listing code ++ listing more := by
  simp [listing]

def Fault.toError : Fault → Error
  | .semantic e => .semantic e
  | .foreignStmt node => .plain (utf8 "unsupported statement: " ++ node.typeName)
  | .foreignExpr node => .plain (utf8 "unsupported expression: " ++ node.typeName)

def Failure.toError (e : Failure) : Error :=
  .wrap (utf8 "stmt " ++ Bytes.ofNat e.index) e.fault.toError

end Codegen

def Compiler.compileProgram (c : Compiler) (p : Program) : Except Codegen.Failure Object :=
  match Codegen.stmtsFrom c.target 0 .initial p.stmts with
  | .error e => .error e
  | .ok (code, s) =>
    .ok ⟨c.target.header ++ Codegen.listing (code ++ Codegen.defaultExit c.target s) ++
        c.target.trailer c.output,
      Var.sort s.vars, s.exited⟩

end LetExit
