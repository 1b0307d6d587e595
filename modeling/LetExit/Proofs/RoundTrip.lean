import LetExit.Proofs.SourcePrograms
import LetExit.Proofs.Layout

/-!
# Canonical texts read back

The canonical text of a well-formed program lays out the lexemes of its
statements one after another: the blanks and marks it is written with keep
neighbouring words apart. Reading it gives the program again, at new places.
Whatever else a program may hold for a name or a literal, no text spells it.
-/

set_option autoImplicit false

namespace LetExit

open Lexer Grammar

def Expr.lexeme : Expr → Lexeme
  | .literal _ digits => ⟨.intLit, digits⟩
  | .var name => ⟨.ident, name.text⟩
  | .foreign _ => ⟨.ident, []⟩

def Stmt.layout : Stmt → Layout
  | .exit _ status =>
    [(⟨.exit, utf8 "finu"⟩, []), (⟨.openParen, [40]⟩, []), (status.lexeme, []),
      (⟨.closeParen, [41]⟩, []), (⟨.semi, [59]⟩, [Bytes.newline])]
  | .declare _ name value =>
    [(⟨.letWord, utf8 "jen"⟩, [Bytes.blank]), (⟨.ident, name.text⟩, [Bytes.blank]),
      (⟨.eq, [61]⟩, [Bytes.blank]), (value.lexeme, []), (⟨.semi, [59]⟩, [Bytes.newline])]
  | .foreign _ => []

theorem Expr.lexeme_wellFormed {e : Expr} (h : e.WellFormed) : e.lexeme.WellFormed := by
  cases e with
  | literal span digits => exact h
  | var name => exact h
  | foreign node => exact h.elim

theorem Expr.lexeme_endsBefore (e : Expr) {b : UInt8} (hb : isWordByte b = false) (rest : Bytes) :
    e.lexeme.EndsBefore (b :: rest) := by
  intro c hc
  cases hc
  cases e with
  | literal span digits =>
    simp only [isWordByte, Bool.or_eq_false_iff] at hb
    exact hb.2
  | var name => exact hb
  | foreign node => exact hb

theorem Expr.print_eq {e : Expr} (h : e.WellFormed) : Printer.expr e = .ok e.lexeme.spelling := by
  cases e with
  | literal span digits => rfl
  | var name => rfl
  | foreign node => exact h.elim

theorem Expr.operand_lexeme {e : Expr} (h : e.WellFormed) (pos : Nat) :
    ∃ e', Grammar.Operand (e.lexeme.token pos) e' ∧ e'.bare = e.bare := by
  cases e with
  | literal span digits => exact ⟨_, .literal _ rfl, rfl⟩
  | var name => exact ⟨_, .var _ rfl, rfl⟩
  | foreign node => exact h.elim

theorem Stmt.print_eq {s : Stmt} (h : s.WellFormed) :
    ∃ line, Printer.stmt s = .ok line ∧ line ++ [Bytes.newline] = s.layout.text := by
  cases s with
  | exit span status =>
    refine ⟨_, by rw [Printer.stmt, Expr.print_eq h], ?_⟩
    simp [Stmt.layout, Layout.text, show utf8 "finu(" = utf8 "finu" ++ [40] from rfl,
      show utf8 ");" = [41, 59] from rfl]
  | declare span name value =>
    refine ⟨_, by rw [Printer.stmt, Expr.print_eq h.2], ?_⟩
    simp [Stmt.layout, Layout.text, Bytes.blank, show utf8 "jen " = utf8 "jen" ++ [32] from rfl,
      show utf8 " = " = [32, 61, 32] from rfl, show utf8 ";" = [59] from rfl]
  | foreign node => exact h.elim

theorem Stmt.layout_separate {s : Stmt} (h : s.WellFormed) (tail : Bytes) :
    s.layout.Separate tail := by
  have hblank : ∀ b ∈ [Bytes.blank], isSpace b := List.forall_mem_singleton.2 (by decide)
  have hnewline : ∀ b ∈ [Bytes.newline], isSpace b := List.forall_mem_singleton.2 (by decide)
  cases s with
  | exit span status =>
    have hend := status.lexeme_endsBefore (b := 41) (by decide)
    exact ⟨rfl, by simp, by simp [Lexeme.EndsBefore, Layout.text, continues]; decide,
      rfl, by simp, fun _ _ => rfl, Expr.lexeme_wellFormed h, by simp, hend _,
      rfl, by simp, fun _ _ => rfl, rfl, hnewline, fun _ _ => rfl, trivial⟩
  | declare span name value =>
    have hend := value.lexeme_endsBefore (b := 59) (by decide)
    exact ⟨rfl, hblank, by simp [Lexeme.EndsBefore, continues]; decide,
      h.1, hblank, by simp [Lexeme.EndsBefore, continues]; decide,
      rfl, hblank, fun _ _ => rfl, Expr.lexeme_wellFormed h.2, by simp, hend _,
      rfl, hnewline, fun _ _ => rfl, trivial⟩
  | foreign node => exact h.elim

/-- The lexemes of a statement spell it, wherever its line is written. -/
theorem Stmt.block_layout {s : Stmt} (h : s.WellFormed) (pos : Nat) :
    ∃ s', Block (s.layout.tokens pos) s' ∧ s'.bare = s.bare := by
  cases s with
  | exit span status =>
    obtain ⟨e, he, hbare⟩ := Expr.operand_lexeme h (pos + 4 + 1)
    exact ⟨_, .exit _ _ _ _ _ e rfl rfl he rfl rfl, by rw [Stmt.bare, Stmt.bare, hbare]⟩
  | declare span name value =>
    obtain ⟨e, he, hbare⟩ := Expr.operand_lexeme h.2
      (pos + 3 + 1 + name.text.length + 1 + 1 + 1)
    exact ⟨_, .declare _ _ _ _ _ e rfl rfl rfl he rfl, by rw [Stmt.bare, Stmt.bare, hbare]; rfl⟩
  | foreign node => exact h.elim

def layoutOf (ss : List Stmt) : Layout := ss.flatMap Stmt.layout

theorem stmtsFrom_eq_layout {ss : List Stmt} (h : ∀ s ∈ ss, s.WellFormed) (i : Nat) :
    Printer.stmtsFrom i ss = .ok (layoutOf ss).text := by
  induction ss generalizing i with
  | nil => rfl
  | cons s ss ih =>
    obtain ⟨line, hline, htext⟩ := Stmt.print_eq (h s (by simp))
    rw [Printer.stmtsFrom, hline, ih fun s' hs' => h s' (by simp [hs'])]
    show _ = Except.ok (Layout.text (s.layout ++ layoutOf ss))
    rw [Layout.text_append, ← htext]

theorem layoutOf_separate {ss : List Stmt} (h : ∀ s ∈ ss, s.WellFormed) :
    (layoutOf ss).Separate [] := by
  induction ss with
  | nil => trivial
  | cons s ss ih =>
    exact Layout.separate_append (Stmt.layout_separate (h s (by simp)) _)
      (ih fun s' hs' => h s' (by simp [hs']))

theorem spells_layoutOf {ss : List Stmt} (h : ∀ s ∈ ss, s.WellFormed) (pos : Nat) :
    ∃ ss', Spells ((layoutOf ss).tokens pos) ss' ∧ ss'.map Stmt.bare = ss.map Stmt.bare := by
  induction ss generalizing pos with
  | nil => exact ⟨[], .nil, rfl⟩
  | cons s ss ih =>
    obtain ⟨s', hs', hbare⟩ := Stmt.block_layout (h s (by simp)) pos
    obtain ⟨ss', hss', hbares⟩ := ih (fun s' hs' => h s' (by simp [hs']))
      (pos + s.layout.text.length)
    refine ⟨s' :: ss', ?_, by rw [List.map_cons, List.map_cons, hbare, hbares]⟩
    rw [layoutOf, List.flatMap_cons, Layout.tokens_append]
    exact .cons hs' hss'

theorem Program.WellFormed.format_eq {p : Program} (h : p.WellFormed) :
    format (.program p) = .ok (layoutOf p.stmts).text := by
  rw [format, Printer.program, stmtsFrom_eq_layout h]
  rfl

theorem Program.WellFormed.reads_back {p : Program} (h : p.WellFormed) :
    ∃ text q, format (.program p) = .ok text ∧ Source.program text = .ok q ∧ q.bare = p.bare := by
  obtain ⟨ss, hspells, hbare⟩ := spells_layoutOf h 0
  refine ⟨(layoutOf p.stmts).text, ⟨ss⟩, h.format_eq, ?_, congrArg Program.mk hbare⟩
  exact Source.program_eq_ok_iff.2 ⟨_, Layout.lex_text (layoutOf_separate h), hspells⟩

/-- The canonical text of a program spells the same program, up to positions, exactly if every
name in it is a word that is no keyword and every literal is a numeral. -/
theorem format_reads_back_iff (p : Program) :
    (∃ text q, format (.program p) = .ok text ∧ Source.program text = .ok q ∧ q.bare = p.bare) ↔
      p.WellFormed := by
  constructor
  · rintro ⟨text, q, -, hq, hbare⟩
    rw [← Program.bare_wellFormed, ← hbare, Program.bare_wellFormed]
    exact Source.program_wellFormed hq
  · exact Program.WellFormed.reads_back

end LetExit
