import LetExit.Assembly.Instr

/-!
# What instructions do

A machine with the two general registers and the stack pointer that compiled
programs use, and a memory with a word at every address. The stack grows
downwards. An instruction that names another register, or moves a text that
is no number, has no meaning. A run ends at its first system call.
-/

set_option autoImplicit false

namespace LetExit

abbrev Word := UInt64

namespace Word

def shiftIn (radix n digit : Nat) : Nat := n * radix + digit

def ofDecimal (digits : Bytes) : Word :=
  UInt64.ofNat (digits.foldl (fun n b => shiftIn 10 n (b.toNat - 48)) 0)

def isHexDigit (b : UInt8) : Bool := Lexer.isDigit b || (97 ≤ b && b ≤ 102)

def hexDigitValue (b : UInt8) : Nat := if Lexer.isDigit b then b.toNat - 48 else b.toNat - 87

def ofHex (digits : Bytes) : Word :=
  UInt64.ofNat (digits.foldl (fun n b => shiftIn 16 n (hexDigitValue b)) 0)

def ofImmediate? (text : Bytes) : Option Word :=
  if text ≠ [] ∧ text.all Lexer.isDigit then some (ofDecimal text)
  else match text with
    | 48 :: 120 :: digits =>
      if digits ≠ [] ∧ digits.all isHexDigit then some (ofHex digits) else none
    | _ => none

end Word

structure Machine where
  rax : Word
  rdi : Word
  rsp : Int
  mem : Int → Word

namespace Machine

def get? (m : Machine) (r : Reg) : Option Word :=
  if r = .rax then some m.rax else if r = .rdi then some m.rdi else none

def set? (m : Machine) (r : Reg) (w : Word) : Option Machine :=
  if r = .rax then some { m with rax := w }
  else if r = .rdi then some { m with rdi := w }
  else none

/-- Memory is addressed from the stack pointer only. -/
def operand? (m : Machine) : Operand → Option Word
  | .reg r => m.get? r
  | .mem base disp => if base = .rsp then some (m.mem (m.rsp + disp)) else none

def push (m : Machine) (w : Word) : Machine :=
  { m with
    rsp := m.rsp - wordSize
    mem := fun a => if a = m.rsp - wordSize then w else m.mem a }

def step (m : Machine) : Instr → Option Machine
  | .mov out imm => (Word.ofImmediate? imm).bind (m.set? out)
  | .push operand => (m.operand? operand).map m.push
  | .pop out => (m.set? out (m.mem m.rsp)).map fun m => { m with rsp := m.rsp + wordSize }
  | .syscall => some m

/-- The machine as the first system call finds it; none if the code runs out before. -/
def atCall (m : Machine) : List Instr → Option Machine
  | [] => none
  | .syscall :: _ => some m
  | i :: rest => (m.step i).bind fun m => m.atCall rest

def after (m : Machine) : List Instr → Option Machine
  | [] => some m
  | i :: rest => (m.step i).bind fun m => m.after rest

theorem atCall_append (code more : List Instr) (m : Machine) (h : .syscall ∉ code) :
    m.atCall (code ++ more) = (m.after code).bind fun m => m.atCall more := by
  induction code generalizing m with
  | nil => rfl
  | cons i rest ih =>
    have hi : i ≠ .syscall := fun e => h (by simp [e])
    have hrest : .syscall ∉ rest := fun e => h (by simp [e])
    rw [List.cons_append, atCall, after, Option.bind_assoc]
    · exact congrArg _ (funext fun m => ih m hrest)
    · exact fun e => hi e

end Machine

end LetExit
