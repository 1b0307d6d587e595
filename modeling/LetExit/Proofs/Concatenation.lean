import Mathlib.Data.List.Basic
import LetExit.Proofs.ErrorTrees
import LetExit.Proofs.SyntaxErrors
import LetExit.Proofs.SourcePrograms

/-!
# Texts put one behind the other

Reading remembers nothing of the bytes it has passed but their number, so the
same bytes further on give the same tokens further on. A text that is put
behind another keeps its tokens unless the last token of the other runs into
it. An accepted text ends with a semicolon, which runs into nothing, and its
statements are complete. What follows it is therefore read as if it stood
alone, and what is wrong with it is found at the same place of it.
-/

set_option autoImplicit false

namespace LetExit

open Lexer Grammar LetExit.Parser

namespace Lexer

theorem Lexeme.token_add (l : Lexeme) (pos n : Nat) :
    l.token (pos + n) = (l.token pos).shift n := by
  simp only [Lexeme.token, Token.shift, Token.mk.injEq, true_and]
  omega

theorem tokensFrom_add (n pos : Nat) (text : Bytes) :
    tokensFrom (pos + n) text = ((tokensFrom pos text).map (List.map (Token.shift n))).mapError
      (LexicalError.shift n) := by
  fun_induction tokensFrom pos text with
  | case1 pos => rw [tokensFrom_nil]; rfl
  | case2 pos b rest hb ih => rw [tokensFrom_space _ _ hb, ← ih, Nat.add_right_comm]
  | case3 pos b rest hb hlex =>
    rw [tokensFrom, if_neg hb, hlex]
    rfl
  | case4 pos b rest hb l hlex size e hrest ih =>
    obtain ⟨hl, hend⟩ := lexeme?_wellFormed hlex
    rw [← lexeme?_spelling hlex, tokensFrom_append _ hl hend, Nat.add_right_comm, ih, hrest]
    rfl
  | case5 pos b rest hb l hlex size toks hrest ih =>
    obtain ⟨hl, hend⟩ := lexeme?_wellFormed hlex
    rw [← lexeme?_spelling hlex, tokensFrom_append _ hl hend, Nat.add_right_comm, ih, hrest,
      l.token_add]
    rfl

/-- The last of the tokens, if it reaches up to the offset `stop`, does not go on with the byte
that stands there. -/
def EndsApart (toks : List Token) (stop : Nat) (rest : Bytes) : Prop :=
  ∀ t, toks.getLast? = some t → t.stop = stop →
    ∀ b, rest.head? = some b → continues t.kind b = false

theorem EndsApart.tail {t : Token} {toks : List Token} {stop : Nat} {rest : Bytes}
    (h : EndsApart (t :: toks) stop rest) : EndsApart toks stop rest := by
  intro u hu
  exact h u (by rw [List.getLast?_cons, hu]; rfl)

/-- The tokens of a text stay as they are when `rest` follows it, and those of `rest` come behind
them. -/
theorem Reads.tokensFrom_append {pos : Nat} {text : Bytes} {toks : List Token}
    (h : Reads pos text toks) {rest : Bytes} (hend : EndsApart toks (pos + text.length) rest) :
    tokensFrom pos (text ++ rest) =
      (tokensFrom (pos + text.length) rest).map (toks ++ ·) := by
  induction h with
  | nil pos =>
    show tokensFrom pos rest = (tokensFrom pos rest).map id
    exact (id_map _).symm
  | @space pos b text toks hb _ ih =>
    have hlength : pos + (b :: text).length = pos + 1 + text.length := by
      rw [List.length_cons]; omega
    rw [hlength] at hend ⊢
    rw [List.cons_append, tokensFrom_space _ _ hb, ih hend]
  | @lexeme pos l text toks hl hends hreads ih =>
    have hlength : pos + (l.spelling ++ text).length = pos + l.spelling.length + text.length := by
      rw [List.length_append]; omega
    rw [hlength] at hend ⊢
    have happart : l.EndsBefore (text ++ rest) := by
      cases text with
      | cons b text => exact hends
      | nil =>
        cases hreads.tokensFrom_eq.symm.trans (tokensFrom_nil _)
        exact hend (l.token pos) rfl rfl
    rw [List.append_assoc, Lexer.tokensFrom_append pos hl happart, ih hend.tail]
    cases tokensFrom (pos + l.spelling.length + text.length) rest <;> rfl

end Lexer

theorem lex_append {a b : Bytes} {toks : List Token} (h : lex a = .ok toks)
    (hend : EndsApart toks a.length b) :
    lex (a ++ b) = ((lex b).map fun more => toks ++ more.map (Token.shift a.length)).mapError
      (LexicalError.shift a.length) := by
  have hreads := lex_eq_ok_iff.1 h
  have hshift := tokensFrom_add a.length 0 b
  rw [lex, hreads.tokensFrom_append (by simpa using hend), hshift]
  show _ = ((tokensFrom 0 b).map _).mapError _
  cases tokensFrom 0 b <;> rfl

/-! Statements behind complete statements. -/

namespace Grammar

theorem Operand.shift {t : Token} {e : Expr} (n : Int) (h : Operand t e) :
    Operand (t.shift n) (e.shift n) := by
  cases h with
  | literal hk => exact .literal _ hk
  | var hk => exact .var _ hk

theorem Block.shift {block : List Token} {s : Stmt} (n : Int) (h : Block block s) :
    Block (block.map (Token.shift n)) (s.shift n) := by
  cases h with
  | exit word opening operand closing semi e hword hopen hoperand hclose hsemi =>
    exact .exit _ _ _ _ _ _ hword hopen (hoperand.shift n) hclose hsemi
  | declare word name eq operand semi e hword hname heq hoperand hsemi =>
    exact .declare _ _ _ _ _ _ hword hname heq (hoperand.shift n) hsemi

theorem Spells.shift {toks : List Token} {ss : List Stmt} (n : Int) (h : Spells toks ss) :
    Spells (toks.map (Token.shift n)) (ss.map (Stmt.shift n)) := by
  induction h with
  | nil => exact .nil
  | cons hblock _ ih =>
    rw [List.map_append]
    exact .cons (hblock.shift n) ih

theorem Spells.append {toks more : List Token} {ss others : List Stmt} (h : Spells toks ss)
    (hmore : Spells more others) : Spells (toks ++ more) (ss ++ others) := by
  induction h with
  | nil => exact hmore
  | cons hblock _ ih =>
    rw [List.append_assoc]
    exact .cons hblock ih

theorem Spells.last_semi {toks : List Token} {ss : List Stmt} (h : Spells toks ss) {t : Token}
    (ht : toks.getLast? = some t) : t.kind = .semi := by
  induction h with
  | nil => cases ht
  | @cons block rest s ss hblock _ ih =>
    rw [List.getLast?_append] at ht
    cases hrest : rest.getLast? with
    | some u =>
      rw [hrest] at ht
      exact ih (hrest.trans ht)
    | none =>
      rw [hrest] at ht
      cases hblock with
      | exit word opening operand closing semi e hword hopen hoperand hclose hsemi =>
        cases ht; exact hsemi
      | declare word name eq operand semi e hword hname heq hoperand hsemi =>
        cases ht; exact hsemi

theorem Sentence.append {kinds more : List Kind} (h : Sentence kinds) (hmore : Sentence more) :
    Sentence (kinds ++ more) := by
  induction h with
  | nil => exact hmore
  | exit he _ ih => exact .exit he ih
  | declare he _ ih => exact .declare he ih

theorem Stuck.append {front kinds : List Kind} {i : Nat} {wanted : Wanted} (hfront : Sentence front)
    (h : Stuck kinds i wanted) : Stuck (front ++ kinds) (front.length + i) wanted := by
  obtain ⟨more, rest, j, rfl, hmore, hne, hmisfit, rfl⟩ := h
  refine ⟨front ++ more, rest, j, by rw [List.append_assoc], hfront.append hmore, hne, hmisfit, ?_⟩
  rw [List.length_append]
  omega

theorem Stuck.ne_nil {kinds : List Kind} {i : Nat} {wanted : Wanted} (h : Stuck kinds i wanted) :
    kinds ≠ [] := by
  obtain ⟨front, rest, j, rfl, -, hne, -⟩ := h
  simp [hne]

end Grammar

theorem map_kind_shift (n : Int) (toks : List Token) :
    (toks.map (Token.shift n)).map Token.kind = toks.map Token.kind := by
  rw [List.map_map]
  rfl

theorem error_atIndex_append (n : Int) (toks : List Token) {more : List Token} (hne : more ≠ [])
    (i : Nat) (wanted : Wanted) :
    (Cursor.atIndex (toks ++ more.map (Token.shift n)) (toks.length + i)).error wanted =
      ((Cursor.atIndex more i).error wanted).shift n := by
  have hindex : (toks ++ more.map (Token.shift n))[toks.length + i]? =
      more[i]?.map (Token.shift n) := by
    rw [List.getElem?_append_right (Nat.le_add_right _ _), Nat.add_sub_cancel_left,
      List.getElem?_map]
  cases ht : more[i]? with
  | some t =>
    rw [ht] at hindex
    rw [Cursor.atIndex_of_some hindex, Cursor.atIndex_of_some ht]
    rfl
  | none =>
    -- behind the end both errors stand where the last token of `more` stops
    have hlast := List.getLast?_eq_some_getLast hne
    have hlast' : (toks ++ more.map (Token.shift n)).getLast? =
        some ((more.getLast hne).shift n) := by
      rw [List.getLast?_append, List.getLast?_map, hlast]
      rfl
    rw [ht] at hindex
    rw [Cursor.atIndex_of_none hindex, Cursor.atIndex_of_none ht]
    simp [Cursor.error, Cursor.ofTokens, hlast, hlast', SyntaxError.shift, Token.shift]

theorem parse_append {toks : List Token} {ss : List Stmt} (h : Spells toks ss) (n : Int)
    (more : List Token) :
    parse (toks ++ more.map (Token.shift n)) =
      ((parse more).map fun q => ⟨ss ++ q.stmts.map (Stmt.shift n)⟩).mapError
        (SyntaxError.shift n) := by
  cases hmore : parse more with
  | ok q => exact parse_eq_ok_iff.2 (h.append ((parse_eq_ok_iff.1 hmore).shift n))
  | error e =>
    obtain ⟨i, wanted, hstuck, rfl⟩ := parse_eq_error_iff.1 hmore
    have hne : more ≠ [] := by simpa using hstuck.ne_nil
    have hfront := sentence_iff.2 ⟨ss, h⟩
    have herror := error_atIndex_append n toks hne i wanted
    refine parse_eq_error_iff.2 ⟨toks.length + i, wanted, ?_, herror.symm⟩
    rw [List.map_append, map_kind_shift]
    simpa using hstuck.append hfront

namespace Source

theorem program_eq_bind (text : Bytes) :
    program text = ((lex text).mapError fun e => .wrap (utf8 "lex") (.lexical e)).bind fun toks =>
      (parse toks).mapError fun e => .wrap (utf8 "parse") (.grammar e) := by
  unfold program tokens
  cases lex text <;> rfl

theorem program_append {a : Bytes} {p : Program} (ha : program a = .ok p) (b : Bytes) :
    program (a ++ b) =
      ((program b).map fun q => ⟨p.stmts ++ q.stmts.map (Stmt.shift a.length)⟩).mapError
        (Error.shift a.length) := by
  obtain ⟨toks, hlex, hspells⟩ := program_eq_ok_iff.1 ha
  have hend : EndsApart toks a.length b := by
    intro t ht _ c _
    rw [hspells.last_semi ht]
    rfl
  rw [program_eq_bind, program_eq_bind, lex_append hlex hend]
  cases lex b with
  | error e => rfl
  | ok more =>
    have hparse := parse_append hspells a.length more
    show (parse (toks ++ more.map (Token.shift a.length))).mapError _ =
      (((parse more).mapError _).map _).mapError _
    rw [hparse]
    cases parse more <;> rfl

theorem program_error_position {text : Bytes} {e : Error} (h : program text = .error e) :
    ∃ pos, e.position? = some pos := by
  rw [program_eq_bind] at h
  cases hlex : lex text with
  | error le =>
    rw [hlex] at h
    cases h
    exact ⟨le.pos, rfl⟩
  | ok toks =>
    rw [hlex] at h
    obtain ⟨ge, -, rfl⟩ := mapError_eq_error_iff.1 h
    exact ⟨ge.pos, rfl⟩

/-- Parsing is compositional: behind an accepted text an accepted one adds its statements, and a
refused one is refused for the same reason, all at places that are further on by the length of
the text in front. -/
theorem parsing_behind_accepted_text {a : Bytes} {p : Program} (ha : program a = .ok p)
    (b : Bytes) :
    (∀ q, program b = .ok q →
      program (a ++ b) = .ok ⟨p.stmts ++ q.stmts.map (Stmt.shift a.length)⟩) ∧
    ∀ e, program b = .error e → ∃ e' pos, program (a ++ b) = .error e' ∧
      e'.category = e.category ∧ e'.message = e.message ∧
      e.position? = some pos ∧ e'.position? = some (pos + a.length) ∧
      e'.offending? = e.offending?.map (Token.shift a.length) := by
  have happend := program_append ha b
  constructor
  · intro q hq
    rw [happend, hq]
    rfl
  · intro e he
    obtain ⟨pos, hpos⟩ := program_error_position he
    refine ⟨e.shift a.length, pos, ?_, e.category_shift _, e.message_shift _, hpos, ?_,
      e.offending?_shift _⟩
    · rw [happend, he]
      rfl
    · rw [e.position?_shift, hpos]
      rfl

theorem parsing_behind_declaration :
    ∃ p, program (utf8 "jen x=1;") = .ok p ∧
      program (utf8 "jen x=1;" ++ utf8 "finu(x);") =
        .ok ⟨p.stmts ++ [.exit ⟨8, 16⟩ (.var ⟨⟨13, 14⟩, utf8 "x"⟩)]⟩ ∧
      ∃ e, program (utf8 "jen x=1;" ++ utf8 "finu(x;") = .error e ∧ e.category = .grammar ∧
        e.message = utf8 "parse: expected ')', got ';'" ∧ e.position? = some 14 ∧
        e.offending? = some ⟨.semi, [], 14, 15⟩ := by
  have ha : program (utf8 "jen x=1;") =
      .ok ⟨[.declare ⟨0, 8⟩ ⟨⟨4, 5⟩, utf8 "x"⟩ (.literal ⟨6, 7⟩ (utf8 "1"))]⟩ := by decide +kernel
  have hq : program (utf8 "finu(x);") = .ok ⟨[.exit ⟨0, 8⟩ (.var ⟨⟨5, 6⟩, utf8 "x"⟩)]⟩ := by
    decide +kernel
  have he : program (utf8 "finu(x;") = .error (.wrap (utf8 "parse")
      (.grammar ⟨6, utf8 "expected ')'", some ⟨.semi, [], 6, 7⟩⟩)) := by decide +kernel
  obtain ⟨e, pos, herror, hcategory, hmessage, hpos, hpos', htoken⟩ :=
    (parsing_behind_accepted_text ha _).2 _ he
  cases hpos
  exact ⟨_, ha, (parsing_behind_accepted_text ha _).1 _ hq, e, herror, hcategory,
    hmessage.trans (by decide +kernel), hpos', htoken⟩

end Source

end LetExit
