import LetExit.Assembly.Machine

/-!
# What programs mean

Statements run in order over an environment of values. A declaration binds
its name, the first exit ends the run with its status, and a run that meets
none ends with zero. A declaration may read its own name: it then reads the
word that its slot holds already, which only the surroundings of the run
determine.
-/

set_option autoImplicit false

namespace LetExit

abbrev Env := List (Bytes × Word)

def Expr.value (env : Env) : Expr → Option Word
  | .literal _ digits => some (Word.ofDecimal digits)
  | .var name => env.lookup name.text
  | .foreign _ => none

/-- The status of the remaining statements, where `stale n` is the word that slot `n` holds
before anything is stored there. -/
def statusFrom (stale : Nat → Word) (env : Env) : List Stmt → Option Word
  | [] => some 0
  | .exit _ status :: _ => status.value env
  | .declare _ name value :: rest =>
    match value.value ((name.text, stale env.length) :: env) with
    | none => none
    | some w => statusFrom stale ((name.text, w) :: env) rest
  | .foreign _ :: _ => none

/-- The status with which a program ends; none if it reads a name that it has not declared. -/
def Program.status (p : Program) (stale : Nat → Word) : Option Word := statusFrom stale [] p.stmts

end LetExit
