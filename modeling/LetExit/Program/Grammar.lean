import LetExit.Token
import LetExit.Program

/-!
# The grammar

Which lists of tokens spell which statements, said without reading order or
errors. A statement is spelled by five tokens: `finu ( e ) ;` or
`jen x = e ;`, where `e` is a single token.
-/

set_option autoImplicit false

namespace LetExit

def Token.span (t : Token) : Span := ⟨t.pos, t.stop⟩

def Token.toName (t : Token) : Name := ⟨t.span, t.text⟩

namespace Grammar

inductive Operand : Token → Expr → Prop where
  | literal (t : Token) (h : t.kind = .intLit) : Operand t (.literal t.span t.text)
  | var (t : Token) (h : t.kind = .ident) : Operand t (.var t.toName)

/-- The five tokens spell the statement. -/
inductive Block : List Token → Stmt → Prop where
  | exit (word opening operand closing semi : Token) (e : Expr)
      (hword : word.kind = .exit) (hopen : opening.kind = .openParen)
      (hoperand : Operand operand e) (hclose : closing.kind = .closeParen)
      (hsemi : semi.kind = .semi) :
      Block [word, opening, operand, closing, semi] (.exit ⟨word.pos, semi.stop⟩ e)
  | declare (word name eq operand semi : Token) (e : Expr)
      (hword : word.kind = .letWord) (hname : name.kind = .ident) (heq : eq.kind = .eq)
      (hoperand : Operand operand e) (hsemi : semi.kind = .semi) :
      Block [word, name, eq, operand, semi] (.declare ⟨word.pos, semi.stop⟩ name.toName e)

inductive Spells : List Token → List Stmt → Prop where
  | nil : Spells [] []
  | cons {block rest : List Token} {s : Stmt} {ss : List Stmt}
      (hblock : Block block s) (hrest : Spells rest ss) : Spells (block ++ rest) (s :: ss)

theorem Block.length {block : List Token} {s : Stmt} (h : Block block s) : block.length = 5 := by
  cases h <;> rfl

theorem Spells.length {toks : List Token} {ss : List Stmt} (h : Spells toks ss) :
    toks.length = 5 * ss.length := by
  induction h with
  | nil => rfl
  | cons hblock _ ih =>
    rw [List.length_append, hblock.length, ih, List.length_cons]
    omega

end Grammar

end LetExit
