import LetExit.Error

/-!
# Instructions

The five forms of instruction that compiled programs are made of, and the
line of assembly text for each. A listing can also be written from entries
of unknown origin. An entry that is no instruction, or pushes something that
is no operand, is refused and leaves the listing as it was.
-/

set_option autoImplicit false

namespace LetExit

structure Reg where
  name : Bytes
  deriving DecidableEq, Repr

namespace Reg

def rax : Reg := ⟨utf8 "rax"⟩
def rdi : Reg := ⟨utf8 "rdi"⟩
def rsp : Reg := ⟨utf8 "rsp"⟩

end Reg

inductive Operand where
  | reg (reg : Reg)
  | mem (base : Reg) (disp : Int)
  deriving DecidableEq, Repr

inductive Instr where
  | mov (out : Reg) (imm : Bytes)
  | push (operand : Operand)
  | pop (out : Reg)
  | syscall
  deriving DecidableEq, Repr

def wordSize : Int := 8

def Operand.text : Operand → Bytes
  | .reg r => r.name
  | .mem base disp =>
    utf8 "QWORD [" ++ base.name ++ utf8 " + " ++ Bytes.ofInt disp ++ utf8 "]"

namespace Instr

def indent : Bytes := utf8 "    "

def text : Instr → Bytes
  | .mov out imm => utf8 "mov " ++ out.name ++ utf8 ", " ++ imm
  | .push operand => utf8 "push " ++ operand.text
  | .pop out => utf8 "pop " ++ out.name
  | .syscall => utf8 "syscall"

def line (i : Instr) : Bytes := indent ++ i.text ++ [Bytes.newline]

end Instr

inductive Entry where
  | instr (instr : Instr)
  | foreignPush (operand : Foreign)
  | foreign (node : Foreign)
  deriving DecidableEq, Repr

namespace Entry

def line : Entry → Except Error Bytes
  | .instr i => .ok i.line
  | .foreignPush operand =>
    .error (.wrap (utf8 "push") (.plain (utf8 "unsupported operand: " ++ operand.typeName)))
  | .foreign node => .error (.plain (utf8 "unsupported instruction: " ++ node.typeName))

/-- Offers entries to a listing one after another and gives the answer to each: the whole
listing so far, or why the entry was refused. -/
def appendAll (listing : Bytes) : List Entry → List (Except Error Bytes)
  | [] => []
  | entry :: rest =>
    match entry.line with
    | .error e => .error e :: appendAll listing rest
    | .ok l => .ok (listing ++ l) :: appendAll (listing ++ l) rest

end Entry

end LetExit
