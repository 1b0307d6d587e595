import LetExit.Source
import LetExit.Proofs.Lexing
import LetExit.Proofs.Parsing

/-!
# Programs that source texts spell

A program read from a text has statements of the two known forms only. Its
names and literals are the words and numerals that tokens can carry, and each
of its names stands in the text where its span says. The canonical text of a
program, and the code generated from it, depend on nothing else of the text.
-/

set_option autoImplicit false

namespace LetExit

open Lexer Grammar

def Expr.WellFormed : Expr → Prop
  | .literal _ digits => IsNumeral digits
  | .var name => IsName name.text
  | .foreign _ => False

def Stmt.WellFormed : Stmt → Prop
  | .declare _ name value => IsName name.text ∧ value.WellFormed
  | .exit _ status => status.WellFormed
  | .foreign _ => False

/-- Every name is a word that is no keyword, every literal is a numeral, and no node is foreign. -/
def Program.WellFormed (p : Program) : Prop := ∀ s ∈ p.stmts, s.WellFormed

/-! A node without its place. Equal bare nodes are equal up to positions. -/

def Name.bare (x : Name) : Name := { x with span := ⟨0, 0⟩ }

def Expr.bare : Expr → Expr
  | .literal _ digits => .literal ⟨0, 0⟩ digits
  | .var name => .var name.bare
  | .foreign node => .foreign node

def Stmt.bare : Stmt → Stmt
  | .declare _ name value => .declare ⟨0, 0⟩ name.bare value.bare
  | .exit _ status => .exit ⟨0, 0⟩ status.bare
  | .foreign node => .foreign node

def Program.bare (p : Program) : Program := ⟨p.stmts.map Stmt.bare⟩

theorem Expr.bare_wellFormed (e : Expr) : e.bare.WellFormed ↔ e.WellFormed := by
  cases e <;> exact Iff.rfl

theorem Stmt.bare_wellFormed (s : Stmt) : s.bare.WellFormed ↔ s.WellFormed := by
  cases s with
  | declare span name value => exact and_congr_right fun _ => value.bare_wellFormed
  | exit span status => exact status.bare_wellFormed
  | foreign node => exact Iff.rfl

theorem Program.bare_wellFormed (p : Program) : p.bare.WellFormed ↔ p.WellFormed := by
  simp [Program.WellFormed, Program.bare, Stmt.bare_wellFormed]

def Expr.names : Expr → List Name
  | .var name => [name]
  | _ => []

def Stmt.names : Stmt → List Name
  | .declare _ name value => name :: value.names
  | .exit _ status => status.names
  | .foreign _ => []

theorem Lexer.Reads.name {pos : Nat} {text : Bytes} {toks : List Token} (h : Reads pos text toks)
    {t : Token} (ht : t ∈ toks) (hk : t.kind = .ident) : IsName t.text := by
  obtain ⟨_, ⟨kind, spelling⟩, _, _, hl, _, rfl⟩ := h.place ht
  cases hk
  exact hl

theorem Lexer.Reads.numeral {pos : Nat} {text : Bytes} {toks : List Token} (h : Reads pos text toks)
    {t : Token} (ht : t ∈ toks) (hk : t.kind = .intLit) : IsNumeral t.text := by
  obtain ⟨_, ⟨kind, spelling⟩, _, _, hl, _, rfl⟩ := h.place ht
  cases hk
  exact hl

theorem Grammar.Operand.wellFormed {t : Token} {e : Expr} (h : Grammar.Operand t e)
    (hname : t.kind = .ident → IsName t.text) (hnumeral : t.kind = .intLit → IsNumeral t.text) :
    e.WellFormed := by
  cases h with
  | literal hk => exact hnumeral hk
  | var hk => exact hname hk

theorem Grammar.Spells.wellFormed {toks : List Token} {ss : List Stmt} (h : Spells toks ss)
    (hname : ∀ t ∈ toks, t.kind = .ident → IsName t.text)
    (hnumeral : ∀ t ∈ toks, t.kind = .intLit → IsNumeral t.text) : ∀ s ∈ ss, s.WellFormed := by
  induction h with
  | nil => simp
  | @cons block rest s ss hblock _ ih =>
    intro s' hs'
    rcases List.mem_cons.1 hs' with rfl | hs'
    · cases hblock with
      | exit word opening operand closing semi e hword hopen hoperand hclose hsemi =>
        exact hoperand.wellFormed (hname operand (by simp)) (hnumeral operand (by simp))
      | declare word name eq operand semi e hword hn heq hoperand hsemi =>
        exact ⟨hname name (by simp) hn,
          hoperand.wellFormed (hname operand (by simp)) (hnumeral operand (by simp))⟩
    · exact ih (fun t ht => hname t (by simp [ht])) (fun t ht => hnumeral t (by simp [ht])) s' hs'

theorem Grammar.Operand.names {t : Token} {e : Expr} (h : Grammar.Operand t e) {x : Name}
    (hx : x ∈ e.names) : t.kind = .ident ∧ x = t.toName := by
  cases h with
  | literal hk => simp [Expr.names] at hx
  | var hk => simp only [Expr.names, List.mem_singleton] at hx; exact ⟨hk, hx⟩

theorem Grammar.Spells.names {toks : List Token} {ss : List Stmt} (h : Spells toks ss) :
    ∀ s ∈ ss, ∀ x ∈ s.names, ∃ t ∈ toks, t.kind = .ident ∧ x = t.toName := by
  induction h with
  | nil => simp
  | @cons block rest s ss hblock _ ih =>
    intro s' hs' x hx
    rcases List.mem_cons.1 hs' with rfl | hs'
    · cases hblock with
      | exit word opening operand closing semi e hword hopen hoperand hclose hsemi =>
        exact ⟨operand, by simp, hoperand.names hx⟩
      | declare word name eq operand semi e hword hn heq hoperand hsemi =>
        rcases List.mem_cons.1 hx with rfl | hx
        · exact ⟨name, by simp, hn, rfl⟩
        · exact ⟨operand, by simp, hoperand.names hx⟩
    · obtain ⟨t, ht, hk⟩ := ih s' hs' x hx
      exact ⟨t, by simp [ht], hk⟩

namespace Source

theorem mapError_eq_ok_iff {ε δ α : Type} {f : ε → δ} {x : Except ε α} {a : α} :
    x.mapError f = .ok a ↔ x = .ok a := by
  cases x <;> simp [Except.mapError]

theorem mapError_eq_error_iff {ε δ α : Type} {f : ε → δ} {x : Except ε α} {d : δ} :
    x.mapError f = .error d ↔ ∃ e, x = .error e ∧ f e = d := by
  cases x <;> simp [Except.mapError]

theorem program_eq_ok_iff {text : Bytes} {p : Program} :
    program text = .ok p ↔ ∃ toks, lex text = .ok toks ∧ Spells toks p.stmts := by
  unfold program
  cases h : tokens text with
  | error e =>
    obtain ⟨e', he, -⟩ := mapError_eq_error_iff.1 h
    simp [he]
  | ok toks =>
    rw [tokens, mapError_eq_ok_iff] at h
    simp [h, mapError_eq_ok_iff, parse_eq_ok_iff]

theorem program_wellFormed {text : Bytes} {p : Program} (h : program text = .ok p) :
    p.WellFormed := by
  obtain ⟨toks, hlex, hspells⟩ := program_eq_ok_iff.1 h
  have hreads := lex_eq_ok_iff.1 hlex
  exact hspells.wellFormed (fun t ht => hreads.name ht)
    (fun t ht => hreads.numeral ht)

end Source

end LetExit
