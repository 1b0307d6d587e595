import LetExit.Program.Parser

/-!
# Tokens and the statements they spell

Reading statements succeeds exactly on the token lists that the grammar
derives, and with the statements it derives. Each reading function is first
described by the tokens it takes off its cursor. A failed reading has stopped
at some token of the list, or behind the last one, and its error is about
that place.
-/

set_option autoImplicit false

namespace LetExit

namespace Parser

open Grammar

def Cursor.advance (c : Cursor) (n : Nat) : Cursor := { c with rest := c.rest.drop n }

def Cursor.atIndex (toks : List Token) (i : Nat) : Cursor := (Cursor.ofTokens toks).advance i

theorem Cursor.atIndex_of_some {toks : List Token} {i : Nat} {t : Token} (h : toks[i]? = some t) :
    Cursor.atIndex toks i = ⟨t :: toks.drop (i + 1), (Cursor.ofTokens toks).last⟩ := by
  obtain ⟨hi, rfl⟩ := List.getElem?_eq_some_iff.1 h
  rw [Cursor.atIndex, Cursor.advance, Cursor.ofTokens, List.drop_eq_getElem_cons hi]

theorem Cursor.atIndex_of_none {toks : List Token} {i : Nat} (h : toks[i]? = none) :
    Cursor.atIndex toks i = ⟨[], (Cursor.ofTokens toks).last⟩ := by
  rw [Cursor.atIndex, Cursor.advance, Cursor.ofTokens,
    List.drop_eq_nil_iff.2 (List.getElem?_eq_none_iff.1 h)]

theorem Cursor.atIndex_cons {toks rest : List Token} {i : Nat} {t : Token} {last : Int}
    (h : Cursor.atIndex toks i = ⟨t :: rest, last⟩) :
    toks[i]? = some t ∧ Cursor.atIndex toks (i + 1) = ⟨rest, last⟩ := by
  obtain ⟨hrest, hlast⟩ := Cursor.mk.inj h
  have hdrop : toks.drop i = t :: rest := hrest
  refine ⟨?_, ?_⟩
  · rw [← List.head?_drop, hdrop, List.head?_cons]
  · rw [Cursor.atIndex, Cursor.advance, ← hlast]
    have hnext : toks.drop (i + 1) = rest := by
      rw [← List.tail_drop, hdrop, List.tail_cons]
    exact congrArg (Cursor.mk · _) hnext

@[simp]
theorem Cursor.length_atIndex (toks : List Token) (i : Nat) :
    (Cursor.atIndex toks i).rest.length = toks.length - i :=
  List.length_drop

def Cursor.kinds (c : Cursor) : List Kind := c.rest.map Token.kind

theorem Cursor.kinds_cons (t : Token) (rest : List Token) (last : Int) :
    Cursor.kinds ⟨t :: rest, last⟩ = t.kind :: Cursor.kinds ⟨rest, last⟩ := rfl

theorem stmt_of_exit {first second : Token} {rest : List Token} {last : Int}
    (hfirst : first.kind = .exit) (hsecond : second.kind = .openParen) :
    stmt ⟨first :: second :: rest, last⟩ = exitFrom first ⟨rest, last⟩ := by
  simp [stmt, hfirst, hsecond]

theorem stmt_of_let {first second third : Token} {rest : List Token} {last : Int}
    (hfirst : first.kind = .letWord) (hsecond : second.kind = .ident) (hthird : third.kind = .eq) :
    stmt ⟨first :: second :: third :: rest, last⟩ = declareFrom first second ⟨rest, last⟩ := by
  simp [stmt, hfirst, hsecond, hthird]

theorem stmt_of_neither {c : Cursor} (hexit : ¬[.exit, .openParen] <+: c.kinds)
    (hlet : ¬[.letWord, .ident, .eq] <+: c.kinds) : stmt c = c.fail .statement := by
  unfold stmt
  split
  · rename_i first second rest hrest
    rw [Cursor.kinds, hrest] at hexit hlet
    split
    · rename_i hk
      simp [hk.1, hk.2] at hexit
    · split
      · rename_i third rest
        split
        · rename_i hk
          simp [hk.1, hk.2.1, hk.2.2] at hlet
        · rfl
      · rfl
  · rfl

theorem stmt_cases (c : Cursor) :
    (∃ first second rest last, c = ⟨first :: second :: rest, last⟩ ∧ first.kind = .exit ∧
      second.kind = .openParen ∧ stmt c = exitFrom first ⟨rest, last⟩) ∨
    (∃ first second third rest last, c = ⟨first :: second :: third :: rest, last⟩ ∧
      first.kind = .letWord ∧ second.kind = .ident ∧ third.kind = .eq ∧
      stmt c = declareFrom first second ⟨rest, last⟩) ∨
    (¬[.exit, .openParen] <+: c.kinds ∧ ¬[.letWord, .ident, .eq] <+: c.kinds ∧
      stmt c = c.fail .statement) := by
  obtain ⟨toks, last⟩ := c
  by_cases hexit : [.exit, .openParen] <+: Cursor.kinds ⟨toks, last⟩
  · obtain ⟨kinds, hkinds⟩ := hexit
    obtain ⟨first, _, rfl, hfirst, hrest⟩ := List.map_eq_cons_iff.1 hkinds.symm
    obtain ⟨second, rest, rfl, hsecond, -⟩ := List.map_eq_cons_iff.1 hrest
    exact .inl ⟨first, second, rest, last, rfl, hfirst, hsecond, stmt_of_exit hfirst hsecond⟩
  · by_cases hlet : [.letWord, .ident, .eq] <+: Cursor.kinds ⟨toks, last⟩
    · obtain ⟨kinds, hkinds⟩ := hlet
      obtain ⟨first, _, rfl, hfirst, hrest⟩ := List.map_eq_cons_iff.1 hkinds.symm
      obtain ⟨second, _, rfl, hsecond, hrest⟩ := List.map_eq_cons_iff.1 hrest
      obtain ⟨third, rest, rfl, hthird, -⟩ := List.map_eq_cons_iff.1 hrest
      exact .inr (.inl ⟨first, second, third, rest, last, rfl, hfirst, hsecond, hthird,
        stmt_of_let hfirst hsecond hthird⟩)
    · exact .inr (.inr ⟨hexit, hlet, stmt_of_neither hexit hlet⟩)

theorem andThen_eq_ok_iff {α β : Type} {step : Step α} {next : α → Cursor → Step β} {b : β}
    {c' : Cursor} :
    step.andThen next = (.ok b, c') ↔ ∃ a c, step = (.ok a, c) ∧ next a c = (.ok b, c') := by
  obtain ⟨outcome, c⟩ := step
  cases outcome with
  | error e => simp [Step.andThen]
  | ok a =>
    constructor
    · intro h; exact ⟨a, c, rfl, h⟩
    · rintro ⟨_, _, ⟨⟩, h⟩; exact h

theorem expect_eq_ok_iff {kind : Kind} {c c' : Cursor} {t : Token} :
    expect kind c = (.ok t, c') ↔ t.kind = kind ∧ c = ⟨t :: c'.rest, c'.last⟩ := by
  obtain ⟨rest, last⟩ := c
  obtain ⟨rest', last'⟩ := c'
  cases rest with
  | nil => simp [expect, Cursor.fail]
  | cons u rest =>
    by_cases hu : u.kind = kind
    · simp only [expect, if_pos hu, Prod.mk.injEq, Except.ok.injEq, Cursor.mk.injEq,
        List.cons.injEq]
      constructor
      · rintro ⟨rfl, rfl, rfl⟩; exact ⟨hu, ⟨rfl, rfl⟩, rfl⟩
      · rintro ⟨-, ⟨rfl, rfl⟩, rfl⟩; exact ⟨rfl, rfl, rfl⟩
    · simp only [expect, if_neg hu, Cursor.fail, Prod.mk.injEq, reduceCtorEq, false_and,
        false_iff, not_and, Cursor.mk.injEq, List.cons.injEq]
      rintro rfl ⟨rfl, -⟩
      exact absurd rfl hu

theorem expr_eq_ok_iff {c c' : Cursor} {e : Expr} :
    expr c = (.ok e, c') ↔ ∃ t, Operand t e ∧ c = ⟨t :: c'.rest, c'.last⟩ := by
  constructor
  · intro h
    unfold expr at h
    split at h
    · cases h
    · rename_i t rest hrest
      obtain ⟨rest', last⟩ := c
      cases hrest
      split at h
      · cases h; exact ⟨t, .literal t (by assumption), rfl⟩
      · cases h; exact ⟨t, .var t (by assumption), rfl⟩
      · cases h
  · rintro ⟨t, ht, rfl⟩
    cases ht with
    | literal hk => simp [expr, hk]
    | var hk => simp [expr, hk]

theorem exitFrom_eq_ok_iff {first : Token} {c c' : Cursor} {s : Stmt} :
    exitFrom first c = (.ok s, c') ↔ ∃ operand closing semi e, Operand operand e ∧
      closing.kind = .closeParen ∧ semi.kind = .semi ∧ s = .exit ⟨first.pos, semi.stop⟩ e ∧
      c = ⟨operand :: closing :: semi :: c'.rest, c'.last⟩ := by
  simp only [exitFrom, andThen_eq_ok_iff, expr_eq_ok_iff, expect_eq_ok_iff]
  constructor
  · rintro ⟨e, _, ⟨t, ht, rfl⟩, u, _, ⟨hu, rfl⟩, v, _, ⟨hv, rfl⟩, h⟩
    cases h
    exact ⟨t, u, v, e, ht, hu, hv, rfl, rfl⟩
  · rintro ⟨t, u, v, e, ht, hu, hv, rfl, rfl⟩
    exact ⟨e, _, ⟨t, ht, rfl⟩, u, _, ⟨hu, rfl⟩, v, _, ⟨hv, rfl⟩, rfl⟩

theorem declareFrom_eq_ok_iff {first name : Token} {c c' : Cursor} {s : Stmt} :
    declareFrom first name c = (.ok s, c') ↔ ∃ operand semi e, Operand operand e ∧
      semi.kind = .semi ∧ s = .declare ⟨first.pos, semi.stop⟩ name.toName e ∧
      c = ⟨operand :: semi :: c'.rest, c'.last⟩ := by
  simp only [declareFrom, andThen_eq_ok_iff, expr_eq_ok_iff, expect_eq_ok_iff]
  constructor
  · rintro ⟨e, _, ⟨t, ht, rfl⟩, u, _, ⟨hu, rfl⟩, h⟩
    cases h
    exact ⟨t, u, e, ht, hu, rfl, rfl⟩
  · rintro ⟨t, u, e, ht, hu, rfl, rfl⟩
    exact ⟨e, _, ⟨t, ht, rfl⟩, u, _, ⟨hu, rfl⟩, rfl⟩

theorem stmt_eq_ok_iff {c c' : Cursor} {s : Stmt} :
    stmt c = (.ok s, c') ↔ ∃ block, Block block s ∧ c = ⟨block ++ c'.rest, c'.last⟩ := by
  constructor
  · intro h
    rcases stmt_cases c with ⟨first, second, rest, last, rfl, hfirst, hsecond, hstmt⟩ |
      ⟨first, second, third, rest, last, rfl, hfirst, hsecond, hthird, hstmt⟩ | ⟨-, -, hstmt⟩
    · rw [hstmt] at h
      obtain ⟨t, u, v, e, ht, hu, hv, rfl, hc⟩ := exitFrom_eq_ok_iff.1 h
      cases hc
      exact ⟨_, .exit first second t u v e hfirst hsecond ht hu hv, rfl⟩
    · rw [hstmt] at h
      obtain ⟨t, u, e, ht, hu, rfl, hc⟩ := declareFrom_eq_ok_iff.1 h
      cases hc
      exact ⟨_, .declare first second third t u e hfirst hsecond hthird ht hu, rfl⟩
    · rw [hstmt] at h
      cases h
  · rintro ⟨block, hblock, rfl⟩
    cases hblock with
    | exit word opening operand closing semi e hword hopen hoperand hclose hsemi =>
      apply (stmt_of_exit hword hopen).trans
      exact exitFrom_eq_ok_iff.2 ⟨operand, closing, semi, e, hoperand, hclose, hsemi, rfl, rfl⟩
    | declare word name eq operand semi e hword hname heq hoperand hsemi =>
      apply (stmt_of_let hword hname heq).trans
      exact declareFrom_eq_ok_iff.2 ⟨operand, semi, e, hoperand, hsemi, rfl, rfl⟩

theorem block_ne_nil {block : List Token} {s : Stmt} (h : Block block s) : block ≠ [] := by
  intro hnil
  simpa [hnil] using h.length

theorem stmts_of_ne_nil {c : Cursor} (hc : c.rest ≠ []) :
    stmts c = (stmt c).andThen fun s c₁ => (stmts c₁).andThen fun ss c₂ => (.ok (s :: ss), c₂) := by
  rw [stmts, if_neg hc]
  split
  · rename_i hs; rw [hs]; rfl
  · rename_i s c₁ hs
    simp only [hs, Step.andThen]
    split <;> simp_all

theorem stmts_eq_ok_iff {c c' : Cursor} {ss : List Stmt} :
    stmts c = (.ok ss, c') ↔ Spells c.rest ss ∧ c' = ⟨[], c.last⟩ := by
  constructor
  · intro h
    fun_induction stmts c generalizing ss with
    | case1 c hc => cases h; rw [hc]; exact ⟨.nil, by rw [← hc]⟩
    | case2 => cases h
    | case3 => cases h
    | case4 c hc s c₁ hs _ ss' c₂ hrest ih =>
      cases h
      obtain ⟨block, hblock, rfl⟩ := stmt_eq_ok_iff.1 hs
      obtain ⟨hspells, rfl⟩ := ih hrest
      exact ⟨.cons hblock hspells, rfl⟩
  · rintro ⟨hspells, rfl⟩
    obtain ⟨rest, last⟩ := c
    change Spells rest ss at hspells
    induction hspells with
    | nil => rw [stmts, if_pos rfl]
    | @cons block rest s ss hblock _ ih =>
      have hs : stmt ⟨block ++ rest, last⟩ = (.ok s, ⟨rest, last⟩) :=
        stmt_eq_ok_iff.2 ⟨block, hblock, rfl⟩
      rw [stmts_of_ne_nil (by simp [block_ne_nil hblock]), andThen_eq_ok_iff]
      exact ⟨s, _, hs, by rw [ih]; rfl⟩

/-- Reading has gone forward from `c`, and if it failed its error is about the place reached. -/
structure Step.Follows {α : Type} (c : Cursor) (step : Step α) : Prop where
  forward : ∃ read, c = ⟨read ++ step.2.rest, step.2.last⟩
  blames : ∀ e, step.1 = .error e → ∃ wanted, e = step.2.error wanted

theorem follows_fail {α : Type} (c : Cursor) (wanted : Wanted) :
    (c.fail wanted : Step α).Follows c := by
  refine ⟨⟨[], rfl⟩, fun e h => ?_⟩
  cases h
  exact ⟨wanted, rfl⟩

theorem follows_ok {α : Type} (a : α) (read : List Token) (c : Cursor) :
    Step.Follows ⟨read ++ c.rest, c.last⟩ (.ok a, c) :=
  ⟨⟨read, rfl⟩, fun _ h => by cases h⟩

theorem Step.Follows.trans {α : Type} {c c₁ : Cursor} {step : Step α}
    (hc : ∃ read, c = ⟨read ++ c₁.rest, c₁.last⟩) (h : step.Follows c₁) : step.Follows c := by
  obtain ⟨read, rfl⟩ := hc
  obtain ⟨read', rfl⟩ := h.forward
  exact ⟨⟨read ++ read', by simp⟩, h.blames⟩

theorem Step.Follows.andThen {α β : Type} {c : Cursor} {step : Step α}
    {next : α → Cursor → Step β} (h : step.Follows c)
    (hnext : ∀ a c₁, step = (.ok a, c₁) → (next a c₁).Follows c₁) :
    (step.andThen next).Follows c := by
  obtain ⟨outcome, c₁⟩ := step
  cases outcome with
  | error e =>
    refine ⟨h.forward, fun e' he => ?_⟩
    cases he
    exact h.blames e rfl
  | ok a => exact (hnext a c₁ rfl).trans h.forward

theorem expect_follows (kind : Kind) (c : Cursor) : (expect kind c).Follows c := by
  obtain ⟨rest, last⟩ := c
  cases rest with
  | nil => exact follows_fail _ _
  | cons t rest =>
    simp only [expect]
    split
    · exact follows_ok t [t] ⟨rest, last⟩
    · exact follows_fail _ _

theorem expr_follows (c : Cursor) : (expr c).Follows c := by
  obtain ⟨rest, last⟩ := c
  cases rest with
  | nil => exact follows_fail _ _
  | cons t rest =>
    simp only [expr]
    split
    · exact follows_ok _ [t] ⟨rest, last⟩
    · exact follows_ok _ [t] ⟨rest, last⟩
    · exact follows_fail _ _

theorem exitFrom_follows (first : Token) (c : Cursor) : (exitFrom first c).Follows c :=
  (expr_follows c).andThen fun _ c₁ _ => (expect_follows _ c₁).andThen fun _ c₂ _ =>
    (expect_follows _ c₂).andThen fun _ c₃ _ => follows_ok _ [] c₃

theorem declareFrom_follows (first name : Token) (c : Cursor) :
    (declareFrom first name c).Follows c :=
  (expr_follows c).andThen fun _ c₁ _ => (expect_follows _ c₁).andThen fun _ c₂ _ =>
    follows_ok _ [] c₂

theorem stmt_follows (c : Cursor) : (stmt c).Follows c := by
  rcases stmt_cases c with ⟨first, second, rest, last, rfl, -, -, hstmt⟩ |
    ⟨first, second, third, rest, last, rfl, -, -, -, hstmt⟩ | ⟨-, -, hstmt⟩
  · rw [hstmt]
    exact (exitFrom_follows first _).trans ⟨[first, second], rfl⟩
  · rw [hstmt]
    exact (declareFrom_follows first second _).trans ⟨[first, second, third], rfl⟩
  · rw [hstmt]
    exact follows_fail _ _

theorem stmts_follows (c : Cursor) : (stmts c).Follows c := by
  by_cases hc : c.rest = []
  · rw [stmts, if_pos hc]
    exact follows_ok [] [] c
  · rw [stmts_of_ne_nil hc]
    refine (stmt_follows c).andThen fun s c₁ hs => ?_
    have := stmt_length_lt hs
    exact (stmts_follows c₁).andThen fun ss c₂ _ => follows_ok _ [] c₂
termination_by c.rest.length

end Parser

open LetExit.Parser Grammar

theorem parse_eq_map (toks : List Token) :
    parse toks = (stmts (.ofTokens toks)).1.map Program.mk := by
  unfold parse program Step.andThen
  split <;> simp_all [Except.map]

/-- Parsing accepts exactly the grammar and gives the statements that the grammar derives. -/
theorem parse_eq_ok_iff {toks : List Token} {p : Program} :
    parse toks = .ok p ↔ Spells toks p.stmts := by
  rw [parse_eq_map]
  constructor
  · intro h
    cases hs : stmts (.ofTokens toks) with
    | mk outcome c =>
      rw [hs] at h
      cases outcome with
      | error e => cases h
      | ok ss => cases h; exact (stmts_eq_ok_iff.1 hs).1
  · intro h
    rw [(stmts_eq_ok_iff (c := .ofTokens toks)).2 ⟨h, rfl⟩]
    rfl

theorem parse_error {toks : List Token} {e : SyntaxError} (h : parse toks = .error e) :
    (∃ t ∈ toks, e.got = some t ∧ e.pos = t.pos) ∨
      (e.got = none ∧ e.pos = (toks.getLast?.map Token.stop).getD 0) := by
  have hf := stmts_follows (.ofTokens toks)
  rw [parse_eq_map] at h
  cases hs : stmts (.ofTokens toks) with
  | mk outcome c =>
    rw [hs] at h hf
    cases outcome with
    | ok ss => cases h
    | error e' =>
      cases h
      obtain ⟨read, hread⟩ := hf.forward
      obtain ⟨wanted, he⟩ := hf.blames e rfl
      obtain ⟨rest, last⟩ := c
      simp only [Cursor.ofTokens, Cursor.mk.injEq] at hread
      obtain ⟨rfl, rfl⟩ := hread
      cases rest with
      | nil => rw [he]; exact .inr ⟨rfl, rfl⟩
      | cons t rest => rw [he]; exact .inl ⟨t, by simp, rfl, rfl⟩

namespace Grammar

/-- The kinds of the tokens of a program: `finu ( e ) ;` and `jen ident = e ;` in any order,
where `e` is an integer literal or an identifier. -/
inductive Sentence : List Kind → Prop where
  | nil : Sentence []
  | exit {e : Kind} {rest : List Kind} (he : e = .intLit ∨ e = .ident) (hrest : Sentence rest) :
      Sentence (.exit :: .openParen :: e :: .closeParen :: .semi :: rest)
  | declare {e : Kind} {rest : List Kind} (he : e = .intLit ∨ e = .ident)
      (hrest : Sentence rest) : Sentence (.letWord :: .ident :: .eq :: e :: .semi :: rest)

theorem Operand.kind {t : Token} {e : Expr} (h : Operand t e) :
    t.kind = .intLit ∨ t.kind = .ident := by
  cases h with
  | literal hk => exact .inl hk
  | var hk => exact .inr hk

theorem Operand.exists_of_kind {t : Token} (h : t.kind = .intLit ∨ t.kind = .ident) :
    ∃ e, Operand t e := by
  rcases h with h | h
  · exact ⟨_, .literal t h⟩
  · exact ⟨_, .var t h⟩

theorem Block.sentence {block : List Token} {s : Stmt} {rest : List Kind} (h : Block block s)
    (hrest : Sentence rest) : Sentence (block.map Token.kind ++ rest) := by
  cases h with
  | exit word opening operand closing semi e hword hopen hoperand hclose hsemi =>
    simpa [hword, hopen, hclose, hsemi] using Sentence.exit hoperand.kind hrest
  | declare word name eq operand semi e hword hname heq hoperand hsemi =>
    simpa [hword, hname, heq, hsemi] using Sentence.declare hoperand.kind hrest

/-- Whether tokens spell a program is told by their kinds. -/
theorem sentence_iff {toks : List Token} :
    Sentence (toks.map Token.kind) ↔ ∃ ss, Spells toks ss := by
  constructor
  · intro h
    generalize hk : toks.map Token.kind = kinds at h
    induction h generalizing toks with
    | nil => rw [List.map_eq_nil_iff.1 hk]; exact ⟨[], .nil⟩
    | exit he _ ih =>
      simp only [List.map_eq_cons_iff] at hk
      obtain ⟨a, _, rfl, ha, b, _, rfl, hb, c, _, rfl, rfl, d, _, rfl, hd, f, rest, rfl, hf, hk⟩ := hk
      obtain ⟨e, hc⟩ := Operand.exists_of_kind he
      obtain ⟨ss, hss⟩ := ih hk
      exact ⟨_, .cons (.exit a b c d f e ha hb hc hd hf) hss⟩
    | declare he _ ih =>
      simp only [List.map_eq_cons_iff] at hk
      obtain ⟨a, _, rfl, ha, b, _, rfl, hb, c, _, rfl, hc, d, _, rfl, rfl, f, rest, rfl, hf, hk⟩ := hk
      obtain ⟨e, hd⟩ := Operand.exists_of_kind he
      obtain ⟨ss, hss⟩ := ih hk
      exact ⟨_, .cons (.declare a b c d f e ha hb hc hd hf) hss⟩
  · rintro ⟨ss, h⟩
    induction h with
    | nil => exact .nil
    | cons hblock _ ih =>
      rw [List.map_append]
      exact hblock.sentence ih

end Grammar

end LetExit
