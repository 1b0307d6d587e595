import LetExit.Program.Printer
import LetExit.Assembly.Codegen

/-!
# Source texts

The whole way from a source text to its tokens, its program, its canonical
form and its compiled form. Each stage that refuses the text puts its name in
front of the error. Offsets are shown to people as lines and columns.
-/

set_option autoImplicit false

namespace LetExit

structure Location where
  line : Nat
  column : Nat
  deriving DecidableEq, Repr

structure OutOfRange where
  pos : Int
  deriving DecidableEq, Repr

def OutOfRange.message (e : OutOfRange) : Bytes :=
  utf8 "runtime error: slice bounds out of range [:" ++ Bytes.ofInt e.pos ++ utf8 "]"

namespace Source

/-- The location of an offset; one behind the end of the text is taken for the end. The
newline that ends a line belongs to that line. -/
def locate (text : Bytes) (pos : Nat) : Location :=
  let before := text.take pos
  ⟨1 + before.count Bytes.newline, 1 + (before.reverse.takeWhile (· != Bytes.newline)).length⟩

def locate? (text : Bytes) (pos : Int) : Except OutOfRange Location :=
  match pos with
  | .ofNat n => .ok (locate text n)
  | .negSucc _ => .error ⟨pos⟩

def tokens (text : Bytes) : Except Error (List Token) :=
  (lex text).mapError fun e => .wrap (utf8 "lex") (.lexical e)

def program (text : Bytes) : Except Error Program :=
  match tokens text with
  | .error e => .error e
  | .ok toks => (parse toks).mapError fun e => .wrap (utf8 "parse") (.grammar e)

def compile (c : Compiler) (text : Bytes) : Except Error Object :=
  match program text with
  | .error e => .error e
  | .ok p => (c.compileProgram p).mapError fun e => .wrap (utf8 "compile") e.toError

/-- The canonical form of a source text, the program read back from it, and whether that
program has the same canonical form. -/
structure Formatted where
  text : Bytes
  program : Program
  stable : Bool
  deriving DecidableEq, Repr

def reformat (text : Bytes) : Except Error Formatted := do
  let first ← format (.program (← program text))
  let again ← program first
  let second ← format (.program again)
  return ⟨first, again, first == second⟩

end Source

end LetExit
