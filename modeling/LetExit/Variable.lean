import LetExit.Bytes

/-!
# Variables

A variable lives in one word of the stack. Its slot is the number of words
below that word, so the slots of a program's variables are distinct and
their order is the order of declaration.
-/

set_option autoImplicit false

namespace LetExit

structure Var where
  name : Bytes
  slot : Int
  pos : Int
  deriving DecidableEq, Repr

structure SemanticError where
  pos : Int
  name : Bytes
  complaint : Bytes
  deriving DecidableEq, Repr

def SemanticError.message (e : SemanticError) : Bytes := e.complaint ++ utf8 ": " ++ e.name

/-- Variables in the order of their slots, whatever order they come in. -/
def Var.sort (vars : List Var) : List Var := vars.mergeSort fun v w => v.slot ≤ w.slot

theorem Var.sort_perm (vars : List Var) : (Var.sort vars).Perm vars :=
  List.mergeSort_perm _ _

theorem Var.sort_pairwise (vars : List Var) : (Var.sort vars).Pairwise (·.slot ≤ ·.slot) := by
  refine (List.pairwise_mergeSort ?_ ?_ vars).imp fun h => by simpa using h
  · intro a b c hab hbc
    simp only [decide_eq_true_eq] at *
    omega
  · intro a b
    simp only [Bool.or_eq_true, decide_eq_true_eq]
    omega

end LetExit
