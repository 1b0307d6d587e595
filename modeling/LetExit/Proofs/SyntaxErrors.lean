import LetExit.Proofs.Parsing

/-!
# Where parsing stops

A list of tokens that spells no program is read statement by statement until
one cannot be completed. What does not fit, where it stands and what was
wanted there is told by the kinds of the tokens alone; the token found at that
place only adds its text and position to the error.
-/

set_option autoImplicit false

namespace LetExit

namespace Grammar

open LetExit.Parser (Wanted)

/-- Kinds that do not begin with a statement: the one at the index is the first that does not fit,
or is missing, and something else was wanted in its place. -/
inductive Misfit : List Kind → Nat → Wanted → Prop where
  | statement {kinds : List Kind} (hexit : ¬[.exit, .openParen] <+: kinds)
      (hlet : ¬[.letWord, .ident, .eq] <+: kinds) : Misfit kinds 0 .statement
  | status {rest : List Kind} (h : ∀ e, rest.head? = some e → ¬(e = .intLit ∨ e = .ident)) :
      Misfit (.exit :: .openParen :: rest) 2 .expression
  | closing {e : Kind} {rest : List Kind} (he : e = .intLit ∨ e = .ident)
      (h : rest.head? ≠ some .closeParen) :
      Misfit (.exit :: .openParen :: e :: rest) 3 (.token .closeParen)
  | exitEnd {e : Kind} {rest : List Kind} (he : e = .intLit ∨ e = .ident)
      (h : rest.head? ≠ some .semi) :
      Misfit (.exit :: .openParen :: e :: .closeParen :: rest) 4 (.token .semi)
  | value {rest : List Kind} (h : ∀ e, rest.head? = some e → ¬(e = .intLit ∨ e = .ident)) :
      Misfit (.letWord :: .ident :: .eq :: rest) 3 .expression
  | letEnd {e : Kind} {rest : List Kind} (he : e = .intLit ∨ e = .ident)
      (h : rest.head? ≠ some .semi) :
      Misfit (.letWord :: .ident :: .eq :: e :: rest) 4 (.token .semi)

theorem Misfit.exit_index {rest : List Kind} {n : Nat} {wanted : Wanted}
    (h : Misfit (.exit :: .openParen :: rest) n wanted) : ∃ i, n = i + 2 := by
  cases h with
  | statement hexit _ => exact absurd ⟨rest, rfl⟩ hexit
  | status _ => exact ⟨0, rfl⟩
  | closing _ _ => exact ⟨1, rfl⟩
  | exitEnd _ _ => exact ⟨2, rfl⟩

theorem Misfit.let_index {rest : List Kind} {n : Nat} {wanted : Wanted}
    (h : Misfit (.letWord :: .ident :: .eq :: rest) n wanted) : ∃ i, n = i + 3 := by
  cases h with
  | statement _ hlet => exact absurd ⟨rest, rfl⟩ hlet
  | value _ => exact ⟨0, rfl⟩
  | letEnd _ _ => exact ⟨1, rfl⟩

theorem Misfit.of_neither {kinds : List Kind} {n : Nat} {wanted : Wanted}
    (h : Misfit kinds n wanted) (hexit : ¬[.exit, .openParen] <+: kinds)
    (hlet : ¬[.letWord, .ident, .eq] <+: kinds) : n = 0 ∧ wanted = .statement := by
  cases h with
  | statement _ _ => exact ⟨rfl, rfl⟩
  | status _ => exact absurd ⟨_, rfl⟩ hexit
  | closing _ _ => exact absurd ⟨_, rfl⟩ hexit
  | exitEnd _ _ => exact absurd ⟨_, rfl⟩ hexit
  | value _ => exact absurd ⟨_, rfl⟩ hlet
  | letEnd _ _ => exact absurd ⟨_, rfl⟩ hlet

/-- Whole statements, and behind them kinds that are left over and do not begin with another. -/
def Stuck (kinds : List Kind) (i : Nat) (wanted : Wanted) : Prop :=
  ∃ front rest j, kinds = front ++ rest ∧ Sentence front ∧ rest ≠ [] ∧ Misfit rest j wanted ∧
    i = front.length + j

end Grammar

namespace Parser

open Grammar

theorem andThen_eq_error_iff {α β : Type} {step : Step α} {next : α → Cursor → Step β}
    {e : SyntaxError} {c' : Cursor} :
    step.andThen next = (.error e, c') ↔
      step = (.error e, c') ∨ ∃ a c, step = (.ok a, c) ∧ next a c = (.error e, c') := by
  obtain ⟨outcome, c⟩ := step
  cases outcome with
  | error e => simp [Step.andThen]
  | ok a =>
    constructor
    · intro h; exact .inr ⟨a, c, rfl, h⟩
    · rintro (⟨⟨⟩⟩ | ⟨_, _, ⟨⟩, h⟩); exact h

theorem fail_eq_error_iff {α : Type} {c c' : Cursor} {wanted : Wanted} {e : SyntaxError} :
    (c.fail wanted : Step α) = (.error e, c') ↔ c' = c ∧ e = c'.error wanted := by
  constructor
  · intro h; cases h; exact ⟨rfl, rfl⟩
  · rintro ⟨rfl, rfl⟩; rfl

theorem expect_eq_error_iff {kind : Kind} {c c' : Cursor} {e : SyntaxError} :
    expect kind c = (.error e, c') ↔
      c.kinds.head? ≠ some kind ∧ c' = c ∧ e = c'.error (.token kind) := by
  obtain ⟨rest, last⟩ := c
  cases rest with
  | nil => simp [expect, fail_eq_error_iff, Cursor.kinds]
  | cons t rest =>
    by_cases hk : t.kind = kind
    · simp [expect, hk, Cursor.kinds]
    · simp [expect, hk, fail_eq_error_iff, Cursor.kinds]

theorem expr_eq_error_iff {c c' : Cursor} {e : SyntaxError} :
    expr c = (.error e, c') ↔
      (∀ k, c.kinds.head? = some k → ¬(k = .intLit ∨ k = .ident)) ∧ c' = c ∧
        e = c'.error .expression := by
  obtain ⟨rest, last⟩ := c
  cases rest with
  | nil => simp [expr, fail_eq_error_iff, Cursor.kinds]
  | cons t rest => cases hk : t.kind <;> simp [expr, hk, fail_eq_error_iff, Cursor.kinds]

theorem exitFrom_eq_error_iff {first : Token} {c c' : Cursor} {e : SyntaxError} :
    exitFrom first c = (.error e, c') ↔
      ∃ i wanted, Misfit (.exit :: .openParen :: c.kinds) (i + 2) wanted ∧ c' = c.advance i ∧
        e = c'.error wanted := by
  simp only [exitFrom, andThen_eq_error_iff, expr_eq_ok_iff, expr_eq_error_iff, expect_eq_ok_iff,
    expect_eq_error_iff]
  constructor
  · rintro (⟨h, rfl, rfl⟩ | ⟨_, _, ⟨t, ht, rfl⟩, ⟨h, rfl, rfl⟩ |
      ⟨u, _, ⟨hu, rfl⟩, ⟨h, rfl, rfl⟩ | ⟨_, _, _, h⟩⟩⟩)
    · exact ⟨0, _, .status h, rfl, rfl⟩
    · exact ⟨1, _, .closing ht.kind h, rfl, rfl⟩
    · refine ⟨2, _, ?_, rfl, rfl⟩
      rw [Cursor.kinds_cons, Cursor.kinds_cons, hu]
      exact .exitEnd ht.kind h
    · cases h
  · rintro ⟨i, wanted, h, rfl, rfl⟩
    obtain ⟨toks, last⟩ := c
    generalize hkinds : Cursor.kinds ⟨toks, last⟩ = kinds at h
    cases h with
    | status h => exact .inl ⟨hkinds ▸ h, rfl, rfl⟩
    | closing he h =>
      obtain ⟨t, rest, rfl, rfl, rfl⟩ := List.map_eq_cons_iff.1 hkinds
      obtain ⟨ex, ht⟩ := Operand.exists_of_kind he
      exact .inr ⟨ex, ⟨rest, last⟩, ⟨t, ht, rfl⟩, .inl ⟨h, rfl, rfl⟩⟩
    | exitEnd he h =>
      obtain ⟨t, _, rfl, rfl, hrest⟩ := List.map_eq_cons_iff.1 hkinds
      obtain ⟨u, rest, rfl, hu, rfl⟩ := List.map_eq_cons_iff.1 hrest
      obtain ⟨ex, ht⟩ := Operand.exists_of_kind he
      exact .inr ⟨ex, ⟨u :: rest, last⟩, ⟨t, ht, rfl⟩,
        .inr ⟨u, ⟨rest, last⟩, ⟨hu, rfl⟩, .inl ⟨h, rfl, rfl⟩⟩⟩

theorem declareFrom_eq_error_iff {first name : Token} {c c' : Cursor} {e : SyntaxError} :
    declareFrom first name c = (.error e, c') ↔
      ∃ i wanted, Misfit (.letWord :: .ident :: .eq :: c.kinds) (i + 3) wanted ∧
        c' = c.advance i ∧ e = c'.error wanted := by
  simp only [declareFrom, andThen_eq_error_iff, expr_eq_ok_iff, expr_eq_error_iff,
    expect_eq_error_iff]
  constructor
  · rintro (⟨h, rfl, rfl⟩ | ⟨_, _, ⟨t, ht, rfl⟩, ⟨h, rfl, rfl⟩ | ⟨_, _, _, h⟩⟩)
    · exact ⟨0, _, .value h, rfl, rfl⟩
    · exact ⟨1, _, .letEnd ht.kind h, rfl, rfl⟩
    · cases h
  · rintro ⟨i, wanted, h, rfl, rfl⟩
    obtain ⟨toks, last⟩ := c
    generalize hkinds : Cursor.kinds ⟨toks, last⟩ = kinds at h
    cases h with
    | value h => exact .inl ⟨hkinds ▸ h, rfl, rfl⟩
    | letEnd he h =>
      obtain ⟨t, rest, rfl, rfl, rfl⟩ := List.map_eq_cons_iff.1 hkinds
      obtain ⟨ex, ht⟩ := Operand.exists_of_kind he
      exact .inr ⟨ex, ⟨rest, last⟩, ⟨t, ht, rfl⟩, .inl ⟨h, rfl, rfl⟩⟩

theorem stmt_eq_error_iff {c c' : Cursor} {e : SyntaxError} :
    stmt c = (.error e, c') ↔
      ∃ i wanted, Misfit c.kinds i wanted ∧ c' = c.advance i ∧ e = c'.error wanted := by
  rcases stmt_cases c with ⟨first, second, rest, last, rfl, hfirst, hsecond, hstmt⟩ |
    ⟨first, second, third, rest, last, rfl, hfirst, hsecond, hthird, hstmt⟩ | ⟨hexit, hlet, hstmt⟩
  · rw [hstmt, exitFrom_eq_error_iff, Cursor.kinds_cons, Cursor.kinds_cons, hfirst, hsecond]
    constructor
    · rintro ⟨i, wanted, h, hc, he⟩
      exact ⟨i + 2, wanted, h, hc, he⟩
    · rintro ⟨n, wanted, h, hc, he⟩
      obtain ⟨i, rfl⟩ := h.exit_index
      exact ⟨i, wanted, h, hc, he⟩
  · rw [hstmt, declareFrom_eq_error_iff, Cursor.kinds_cons, Cursor.kinds_cons, Cursor.kinds_cons,
      hfirst, hsecond, hthird]
    constructor
    · rintro ⟨i, wanted, h, hc, he⟩
      exact ⟨i + 3, wanted, h, hc, he⟩
    · rintro ⟨n, wanted, h, hc, he⟩
      obtain ⟨i, rfl⟩ := h.let_index
      exact ⟨i, wanted, h, hc, he⟩
  · rw [hstmt, fail_eq_error_iff]
    constructor
    · rintro ⟨rfl, he⟩
      exact ⟨0, .statement, .statement hexit hlet, rfl, he⟩
    · rintro ⟨n, wanted, h, rfl, rfl⟩
      obtain ⟨rfl, rfl⟩ := h.of_neither hexit hlet
      exact ⟨rfl, rfl⟩

theorem stmts_append {front rest : List Token} {ss : List Stmt} (last : Int)
    (h : Spells front ss) :
    stmts ⟨front ++ rest, last⟩ =
      (stmts ⟨rest, last⟩).andThen fun more c => (.ok (ss ++ more), c) := by
  induction h with
  | nil =>
    rw [List.nil_append]
    generalize stmts ⟨rest, last⟩ = step
    obtain ⟨outcome, c⟩ := step
    cases outcome <;> rfl
  | @cons block front s ss hblock _ ih =>
    have hs : stmt ⟨block ++ (front ++ rest), last⟩ = (.ok s, ⟨front ++ rest, last⟩) :=
      stmt_eq_ok_iff.2 ⟨block, hblock, rfl⟩
    rw [List.append_assoc, stmts_of_ne_nil (by simp [block_ne_nil hblock]), hs]
    show (stmts ⟨front ++ rest, last⟩).andThen _ = _
    rw [ih]
    generalize stmts ⟨rest, last⟩ = step
    obtain ⟨outcome, c⟩ := step
    cases outcome <;> rfl

theorem stmts_eq_error_iff {c c' : Cursor} {e : SyntaxError} :
    stmts c = (.error e, c') ↔
      ∃ i wanted, Stuck c.kinds i wanted ∧ c' = c.advance i ∧ e = c'.error wanted := by
  constructor
  · intro h
    fun_induction stmts c with
    | case1 => cases h
    | case2 c hc e₁ c₁ hs =>
      cases h
      obtain ⟨i, wanted, hmisfit, hc', he⟩ := stmt_eq_error_iff.1 hs
      refine ⟨i, wanted, ⟨[], c.kinds, i, rfl, .nil, ?_, hmisfit, by simp⟩, hc', he⟩
      simpa [Cursor.kinds] using hc
    | case3 c hc s c₁ hs _ e₂ c₂ hrest ih =>
      cases h
      -- the block that was read is one more statement in front of the kinds that get stuck
      obtain ⟨block, hblock, rfl⟩ := stmt_eq_ok_iff.1 hs
      obtain ⟨i, wanted, ⟨front, rest, j, hkinds, hfront, hne, hmisfit, rfl⟩, rfl, he⟩ := ih hrest
      refine ⟨block.length + (front.length + j), wanted, ⟨block.map Token.kind ++ front, rest, j,
        ?_, hblock.sentence hfront, hne, hmisfit, ?_⟩, ?_, he⟩
      · rw [List.append_assoc, ← hkinds]
        simp [Cursor.kinds]
      · rw [List.length_append, List.length_map]
        omega
      · simp [Cursor.advance]
    | case4 => cases h
  · rintro ⟨_, wanted, ⟨front, rest, j, hkinds, hfront, hne, hmisfit, rfl⟩, rfl, rfl⟩
    obtain ⟨toks, last⟩ := c
    obtain ⟨front, rest, rfl, rfl, rfl⟩ := List.map_eq_append_iff.1 hkinds
    obtain ⟨ss, hspells⟩ := sentence_iff.1 hfront
    have hs : stmt ⟨rest, last⟩ = _ := stmt_eq_error_iff.2 ⟨j, wanted, hmisfit, rfl, rfl⟩
    have hadvance : Cursor.advance ⟨front ++ rest, last⟩ ((front.map Token.kind).length + j) =
        Cursor.advance ⟨rest, last⟩ j := by
      simp [Cursor.advance]
    rw [stmts_append last hspells, stmts_of_ne_nil (by simpa using hne), hs, hadvance]
    rfl

end Parser

open LetExit.Parser Grammar

/-- Parsing fails exactly on kinds that get stuck, with the error of the place where they do. -/
theorem parse_eq_error_iff {toks : List Token} {e : SyntaxError} :
    parse toks = .error e ↔ ∃ i wanted, Stuck (toks.map Token.kind) i wanted ∧
      e = (Cursor.atIndex toks i).error wanted := by
  rw [parse_eq_map]
  constructor
  · intro h
    cases hs : stmts (.ofTokens toks) with
    | mk outcome c =>
      rw [hs] at h
      cases outcome with
      | ok ss => cases h
      | error e' =>
        cases h
        obtain ⟨i, wanted, hstuck, rfl, he⟩ := stmts_eq_error_iff.1 hs
        exact ⟨i, wanted, hstuck, he⟩
  · rintro ⟨i, wanted, hstuck, rfl⟩
    have hs : stmts (.ofTokens toks) = _ := stmts_eq_error_iff.2 ⟨i, wanted, hstuck, rfl, rfl⟩
    rw [hs]
    rfl

end LetExit
