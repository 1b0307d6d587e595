import Mathlib.Data.List.Forall2
import LetExit.Proofs.IndexedReading

/-!
# Derivations

A derivation cuts a list of tokens into blocks of five and says of each block
which statement it spells. Since all blocks have the same length there is only
one way to cut, and a block determines its statement with all positions. So a
list that can be derived at all has one derivation, and that is the one which
parsing finds.
-/

set_option autoImplicit false

namespace LetExit

namespace Grammar

def IsBlock (block : List Token) : Prop :=
  ∃ e, (e = .intLit ∨ e = .ident) ∧
    (block.map Token.kind = [.exit, .openParen, e, .closeParen, .semi] ∨
      block.map Token.kind = [.letWord, .ident, .eq, e, .semi])

/-- The blocks make up the list, and each spells the statement in its place. -/
structure Derives (toks : List Token) (blocks : List (List Token)) (ss : List Stmt) : Prop where
  cut : blocks.flatten = toks
  spelled : List.Forall₂ Block blocks ss

theorem isBlock_iff {block : List Token} : IsBlock block ↔ ∃ s, Block block s := by
  constructor
  · rintro ⟨e, he, h | h⟩
    · simp only [List.map_eq_cons_iff, List.map_eq_nil_iff] at h
      obtain ⟨a, _, rfl, ha, b, _, rfl, hb, c, _, rfl, rfl, d, _, rfl, hd, f, _, rfl, hf, rfl⟩ := h
      obtain ⟨e, hc⟩ := Operand.exists_of_kind he
      exact ⟨_, .exit a b c d f e ha hb hc hd hf⟩
    · simp only [List.map_eq_cons_iff, List.map_eq_nil_iff] at h
      obtain ⟨a, _, rfl, ha, b, _, rfl, hb, c, _, rfl, hc, d, _, rfl, rfl, f, _, rfl, hf, rfl⟩ := h
      obtain ⟨e, hd⟩ := Operand.exists_of_kind he
      exact ⟨_, .declare a b c d f e ha hb hc hd hf⟩
  · rintro ⟨s, h⟩
    cases h with
    | exit word opening operand closing semi e hword hopen hoperand hclose hsemi =>
      exact ⟨operand.kind, hoperand.kind, .inl (by simp [hword, hopen, hclose, hsemi])⟩
    | declare word name eq operand semi e hword hname heq hoperand hsemi =>
      exact ⟨operand.kind, hoperand.kind, .inr (by simp [hword, hname, heq, hsemi])⟩

theorem Operand.unique {t : Token} {e e' : Expr} (h : Operand t e) (h' : Operand t e') :
    e = e' := by
  cases h with
  | literal hk =>
    cases h' with
    | literal _ => rfl
    | var hk' => simp [hk] at hk'
  | var hk =>
    cases h' with
    | literal hk' => simp [hk] at hk'
    | var _ => rfl

theorem Block.unique {block : List Token} {s s' : Stmt} (h : Block block s) (h' : Block block s') :
    s = s' := by
  cases h with
  | exit word opening operand closing semi e hword hopen hoperand hclose hsemi =>
    cases h' with
    | exit _ _ _ _ _ e' _ _ hoperand' _ _ => rw [hoperand.unique hoperand']
    | declare _ _ _ _ _ _ hword' _ _ _ _ => simp [hword] at hword'
  | declare word name eq operand semi e hword hname heq hoperand hsemi =>
    cases h' with
    | exit _ _ _ _ _ _ hword' _ _ _ _ => simp [hword] at hword'
    | declare _ _ _ _ _ e' _ _ _ hoperand' _ => rw [hoperand.unique hoperand']

theorem Block.count_semi {block : List Token} {s : Stmt} (h : Block block s) :
    (block.map Token.kind).count .semi = 1 := by
  have operand : ∀ {t : Token} {e : Expr}, Operand t e → t.kind ≠ .semi := by
    intro t e he
    rcases he.kind with hk | hk <;> simp [hk]
  cases h with
  | exit word opening t closing semi e hword hopen hoperand hclose hsemi =>
    simp [hword, hopen, hclose, hsemi, operand hoperand]
  | declare word name eq t semi e hword hname heq hoperand hsemi =>
    simp [hword, hname, heq, hsemi, operand hoperand]

theorem Spells.count_semi {toks : List Token} {ss : List Stmt} (h : Spells toks ss) :
    (toks.map Token.kind).count .semi = ss.length := by
  induction h with
  | nil => rfl
  | cons hblock _ ih =>
    rw [List.map_append, List.count_append, hblock.count_semi, ih, List.length_cons]
    omega

theorem spells_iff_derives {toks : List Token} {ss : List Stmt} :
    Spells toks ss ↔ ∃ blocks, Derives toks blocks ss := by
  constructor
  · intro h
    induction h with
    | nil => exact ⟨[], rfl, .nil⟩
    | @cons block rest s ss hblock _ ih =>
      obtain ⟨blocks, rfl, hspelled⟩ := ih
      exact ⟨block :: blocks, rfl, .cons hblock hspelled⟩
  · rintro ⟨blocks, rfl, hspelled⟩
    induction hspelled with
    | nil => exact .nil
    | cons hblock _ ih => exact .cons hblock ih

/-- There is one way to cut a list into blocks, and one statement that each block spells. -/
theorem Derives.unique {toks : List Token} {blocks blocks' : List (List Token)}
    {ss ss' : List Stmt} (h : Derives toks blocks ss) (h' : Derives toks blocks' ss') :
    blocks = blocks' ∧ ss = ss' := by
  obtain ⟨rfl, hspelled⟩ := h
  obtain ⟨hcut, hspelled'⟩ := h'
  induction hspelled generalizing blocks' ss' with
  | nil =>
    cases hspelled' with
    | nil => exact ⟨rfl, rfl⟩
    | cons hblock _ =>
      have := congrArg List.length hcut
      simp [hblock.length] at this
  | @cons block s blocks ss hblock _ ih =>
    cases hspelled' with
    | nil =>
      have := congrArg List.length hcut
      simp only [List.flatten_nil, List.length_nil, List.flatten_cons, List.length_append,
        hblock.length] at this
      omega
    | @cons block' s' blocks' ss' hblock' hspelled' =>
      -- all blocks have five tokens, so the first block of both cuts is the same
      rw [List.flatten_cons, List.flatten_cons] at hcut
      obtain ⟨rfl, hrest⟩ := List.append_inj hcut (by rw [hblock.length, hblock'.length])
      obtain ⟨rfl, rfl⟩ := ih hrest hspelled'
      exact ⟨rfl, by rw [hblock.unique hblock']⟩

theorem exists_spells_iff_blocks {toks : List Token} :
    (∃ ss, Spells toks ss) ↔
      ∃ blocks : List (List Token), blocks.flatten = toks ∧ ∀ block ∈ blocks, IsBlock block := by
  constructor
  · rintro ⟨ss, h⟩
    induction h with
    | nil => exact ⟨[], rfl, by simp⟩
    | @cons block rest s ss hblock _ ih =>
      obtain ⟨blocks, rfl, hblocks⟩ := ih
      exact ⟨block :: blocks, rfl, List.forall_mem_cons.2 ⟨isBlock_iff.2 ⟨s, hblock⟩, hblocks⟩⟩
  · rintro ⟨blocks, rfl, hblocks⟩
    induction blocks with
    | nil => exact ⟨[], .nil⟩
    | cons block blocks ih =>
      obtain ⟨hfirst, hrest⟩ := List.forall_mem_cons.1 hblocks
      obtain ⟨s, hblock⟩ := isBlock_iff.1 hfirst
      obtain ⟨ss, hspells⟩ := ih hrest
      exact ⟨s :: ss, .cons hblock hspells⟩

end Grammar

open Grammar

/-- A list of tokens is accepted exactly if it is a concatenation of blocks. The program then has
one statement a block, is the only one that can be derived, and has a fifth as many statements as
there are tokens and as many as there are semicolons. Reading by index, in which an access outside
the list has no outcome, has the same outcome on every list. -/
theorem parse_finds_unique_derivation (toks : List Token) :
    ((∃ p, parse toks = .ok p) ↔
      ∃ blocks : List (List Token), blocks.flatten = toks ∧ ∀ block ∈ blocks, IsBlock block) ∧
    (∀ p, parse toks = .ok p → ∃ blocks, Derives toks blocks p.stmts ∧
      (∀ blocks' ss, Derives toks blocks' ss → blocks' = blocks ∧ ss = p.stmts) ∧
      toks.length = 5 * p.stmts.length ∧
      (toks.map Token.kind).count .semi = p.stmts.length) ∧
    Parser.Indexed.parse toks = some (parse toks) := by
  refine ⟨?_, ?_, Parser.Indexed.parse_eq_some toks⟩
  · rw [← exists_spells_iff_blocks]
    constructor
    · rintro ⟨p, h⟩
      exact ⟨p.stmts, parse_eq_ok_iff.1 h⟩
    · rintro ⟨ss, h⟩
      exact ⟨⟨ss⟩, parse_eq_ok_iff.2 h⟩
  · intro p h
    have hspells := parse_eq_ok_iff.1 h
    obtain ⟨blocks, hderives⟩ := spells_iff_derives.1 hspells
    exact ⟨blocks, hderives, fun blocks' ss h' => h'.unique hderives, hspells.length,
      hspells.count_semi⟩

/-- Tokens that no text could have: they carry texts where none belong and stand in no order. -/
theorem shuffled_tokens_derived :
    ∃ p blocks,
      parse [⟨.letWord, utf8 "?", 90, -4⟩, ⟨.ident, [], 7, 7⟩, ⟨.eq, [], 0, 0⟩,
        ⟨.intLit, utf8 "x", -2, 50⟩, ⟨.semi, [], 3, 2⟩] = .ok p ∧
      p.stmts = [.declare ⟨90, 2⟩ ⟨⟨7, 7⟩, []⟩ (.literal ⟨-2, 50⟩ (utf8 "x"))] ∧
      Derives [⟨.letWord, utf8 "?", 90, -4⟩, ⟨.ident, [], 7, 7⟩, ⟨.eq, [], 0, 0⟩,
        ⟨.intLit, utf8 "x", -2, 50⟩, ⟨.semi, [], 3, 2⟩] blocks p.stmts := by
  have hparse : parse [⟨.letWord, utf8 "?", 90, -4⟩, ⟨.ident, [], 7, 7⟩, ⟨.eq, [], 0, 0⟩,
      ⟨.intLit, utf8 "x", -2, 50⟩, ⟨.semi, [], 3, 2⟩] =
        .ok ⟨[.declare ⟨90, 2⟩ ⟨⟨7, 7⟩, []⟩ (.literal ⟨-2, 50⟩ (utf8 "x"))]⟩ := by
    decide +kernel
  obtain ⟨blocks, hderives, -⟩ := (parse_finds_unique_derivation _).2.1 _ hparse
  exact ⟨_, blocks, hparse, rfl, hderives⟩

end LetExit
