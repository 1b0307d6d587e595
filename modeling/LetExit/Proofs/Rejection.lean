import LetExit.Proofs.Scoping
import LetExit.Proofs.Compilation

/-!
# Which texts are refused, and where

Each stage of compilation refuses the texts that the stages before it let
through: a byte that no text may hold, tokens that spell no program, a name
declared twice or read where it has not been declared. The error of each
stage tells its category and a place in the text. A tree that was read from a
text holds nothing foreign, so no other error is possible.
-/

set_option autoImplicit false

namespace LetExit

open Lexer Grammar Codegen

/-! The places that errors tell lie in the text. -/

theorem Lexer.Reads.span {text : Bytes} {toks : List Token} (h : Reads 0 text toks) {t : Token}
    (ht : t ∈ toks) :
    ∃ start stop : Nat, t.pos = start ∧ t.stop = stop ∧ start < stop ∧ stop ≤ text.length := by
  obtain ⟨before, l, rest, rfl, hl, _, rfl⟩ := h.place ht
  have hpos := hl.spelling_pos
  refine ⟨_, _, rfl, rfl, by omega, ?_⟩
  simp only [List.length_append]
  omega

theorem Lexer.Reads.spelled {text : Bytes} {toks : List Token} (h : Reads 0 text toks) {t : Token}
    (ht : t ∈ toks) (hk : t.kind = .ident) :
    ∃ start : Nat, t = ⟨.ident, t.text, start, (start + t.text.length : Nat)⟩ ∧
      (text.drop start).take t.text.length = t.text := by
  obtain ⟨before, ⟨kind, spelling⟩, rest, rfl, _, _, rfl⟩ := h.place ht
  cases hk
  refine ⟨before.length, by simp [Lexeme.token, Lexeme.text], ?_⟩
  simp [Lexeme.token, Lexeme.text]

theorem lex_error_span {text : Bytes} {e : LexicalError} (h : lex text = .error e) :
    ∃ pos : Nat, e.pos = pos ∧ pos < text.length := by
  obtain ⟨before, rest, rfl, _, _, hpos⟩ := tokensFrom_error h
  refine ⟨_, hpos, ?_⟩
  simp

theorem parse_error_span {text : Bytes} {toks : List Token} {e : SyntaxError}
    (hlex : lex text = .ok toks) (h : parse toks = .error e) :
    ∃ pos : Nat, e.pos = pos ∧ pos ≤ text.length ∧ (pos < text.length ∨ e.got = none) := by
  have hreads := lex_eq_ok_iff.1 hlex
  rcases parse_error h with ⟨t, ht, _, hpos⟩ | ⟨hgot, hpos⟩
  · obtain ⟨start, stop, hstart, _, hlt, hle⟩ := hreads.span ht
    exact ⟨start, hpos.trans hstart, by omega, .inl (by omega)⟩
  · cases hlast : toks.getLast? with
    | none =>
      rw [hlast] at hpos
      exact ⟨0, hpos, Nat.zero_le _, .inr hgot⟩
    | some t =>
      rw [hlast] at hpos
      obtain ⟨_, stop, _, hstop, _, hle⟩ := hreads.span (List.mem_of_getLast? hlast)
      exact ⟨stop, hpos.trans hstop, hle, .inr hgot⟩

/-! A statement read from a text can only offend by a name. -/

theorem Expr.Offends.name {names : List Bytes} {e : Expr} {fault : Fault} (hw : e.WellFormed)
    (h : e.Offends names fault) :
    ∃ se, fault = .semantic se ∧ ∃ x ∈ e.names, se.pos = x.span.pos ∧ se.name = x.text := by
  cases h with
  | @undeclared x h => exact ⟨_, rfl, x, by simp [Expr.names], rfl, rfl⟩
  | foreign => exact hw.elim

theorem Stmt.Offends.name {names : List Bytes} {s : Stmt} {fault : Fault} (hw : s.WellFormed)
    (h : s.Offends names fault) :
    ∃ se, fault = .semantic se ∧ ∃ x ∈ s.names, se.pos = x.span.pos ∧ se.name = x.text := by
  cases h with
  | @redeclared span x value h => exact ⟨_, rfl, x, by simp [Stmt.names], rfl, rfl⟩
  | @value span x value fault h hvalue =>
    obtain ⟨se, hse, y, hy, hplace⟩ := hvalue.name hw.2
    exact ⟨se, hse, y, by simp [Stmt.names, hy], hplace⟩
  | status hstatus => exact hstatus.name hw
  | foreign => exact hw.elim

@[simp]
theorem Error.category_wrap (context : Bytes) (e : Error) :
    (Error.wrap context e).category = e.category := rfl

@[simp]
theorem Error.category_lexical (e : LexicalError) : (Error.lexical e).category = .lexical := rfl

@[simp]
theorem Error.category_grammar (e : SyntaxError) : (Error.grammar e).category = .grammar := rfl

@[simp]
theorem Error.category_semantic (e : SemanticError) : (Error.semantic e).category = .semantic := rfl

namespace Source

/-- How compilation can end. Each stage is only reached by the texts that the stages before it
let through. -/
inductive Verdict (c : Compiler) (text : Bytes) : Prop where
  | illegal (e : LexicalError) (hlex : lex text = .error e)
      (h : compile c text = .error (.wrap (utf8 "lex") (.lexical e)))
  | ungrammatical (toks : List Token) (e : SyntaxError) (hlex : lex text = .ok toks)
      (hparse : parse toks = .error e)
      (h : compile c text = .error (.wrap (utf8 "parse") (.grammar e)))
  | offends (toks : List Token) (p : Program) (i : Nat) (e : SemanticError) (x : Name)
      (hlex : lex text = .ok toks) (hspells : Spells toks p.stmts)
      (hscoped : ¬Scoped [] p.stmts) (hx : ∃ s ∈ p.stmts, x ∈ s.names)
      (hpos : e.pos = x.span.pos) (hname : e.name = x.text)
      (h : compile c text =
        .error (.wrap (utf8 "compile") (.wrap (utf8 "stmt " ++ Bytes.ofNat i) (.semantic e))))
  | accepted (toks : List Token) (p : Program) (hlex : lex text = .ok toks)
      (hspells : Spells toks p.stmts) (hscoped : Scoped [] p.stmts)
      (h : compile c text = .ok (c.objectOf p))

theorem verdict (c : Compiler) (text : Bytes) : Verdict c text := by
  cases hlex : lex text with
  | error e => exact .illegal e hlex (by simp [compile, program, tokens, hlex, Except.mapError])
  | ok toks =>
    cases hparse : parse toks with
    | error e =>
      refine .ungrammatical toks e hlex hparse ?_
      simp [compile, program, tokens, hlex, hparse, Except.mapError]
    | ok p =>
      have hspells := parse_eq_ok_iff.1 hparse
      have hp : program text = .ok p := program_eq_ok_iff.2 ⟨toks, hlex, hspells⟩
      cases hobject : c.compileProgram p with
      | ok o =>
        obtain ⟨hscoped, rfl⟩ := Compiler.compileProgram_eq_ok_iff.1 hobject
        exact .accepted toks p hlex hspells hscoped (compile_eq_ok_iff.2 ⟨p, hp, hscoped, rfl⟩)
      | error failure =>
        obtain ⟨pre, s, post, hss, _, hoffends, _⟩ := Compiler.compileProgram_eq_error hobject
        have hs : s ∈ p.stmts := by simp [hss]
        obtain ⟨e, hfault, x, hx, hpos, hname⟩ := hoffends.name (program_wellFormed hp s hs)
        refine .offends toks p failure.index e x hlex hspells ?_ ⟨s, hs, hx⟩ hpos hname ?_
        · intro hscoped
          rw [c.compileProgram_of_scoped hscoped] at hobject
          cases hobject
        · simp [compile, hp, hobject, Except.mapError, Failure.toError, hfault, Fault.toError]

/-- The compilation of a text ends with an error of this category. -/
def FailsAs (c : Compiler) (text : Bytes) (category : Error.Category) : Prop :=
  ∃ e, compile c text = .error e ∧ e.category = category

/-- What is known of an error that the compilation of a text ends with: it comes from one of the
three stages, so it is about nothing foreign, and it has a place in the text. The place is the end
of the text only if a syntax error found no token there, and that of a semantic error is an
identifier token with the name it is about. -/
structure Diagnoses (text : Bytes) (e : Error) : Prop where
  stage : (∃ le, e = .wrap (utf8 "lex") (.lexical le)) ∨
    (∃ ge, e = .wrap (utf8 "parse") (.grammar ge)) ∨
    ∃ i se, e =
      .wrap (utf8 "compile") (.wrap (utf8 "stmt " ++ Bytes.ofNat i) (.semantic se))
  category : e.category ≠ .general
  place : ∃ pos : Nat, e.position? = some (pos : Int) ∧ pos ≤ text.length ∧
    (pos < text.length ∨ ∃ ge, e.cause = .grammar ge ∧ ge.got = none) ∧
    ∀ se, e.cause = .semantic se →
      (∃ toks, lex text = .ok toks ∧
        ⟨.ident, se.name, pos, (pos + se.name.length : Nat)⟩ ∈ toks) ∧
      (text.drop pos).take se.name.length = se.name

theorem diagnoses {c : Compiler} {text : Bytes} {e : Error} (h : compile c text = .error e) :
    Diagnoses text e := by
  cases verdict c text with
  | illegal le hlex hc =>
    obtain rfl := Except.error.inj (h.symm.trans hc)
    obtain ⟨pos, hpos, hlt⟩ := lex_error_span hlex
    refine ⟨.inl ⟨le, rfl⟩, by simp, pos, congrArg some hpos, by omega, .inl hlt, ?_⟩
    intro se hse
    cases hse
  | ungrammatical toks ge hlex hparse hc =>
    obtain rfl := Except.error.inj (h.symm.trans hc)
    obtain ⟨pos, hpos, hle, hend⟩ := parse_error_span hlex hparse
    refine ⟨.inr (.inl ⟨ge, rfl⟩), by simp, pos, congrArg some hpos, hle,
      hend.imp_right fun hgot => ⟨ge, rfl, hgot⟩, ?_⟩
    intro se hse
    cases hse
  | offends toks p i se x hlex hspells hscoped hx hpos hname hc =>
    obtain rfl := Except.error.inj (h.symm.trans hc)
    have hreads := lex_eq_ok_iff.1 hlex
    obtain ⟨s, hs, hxs⟩ := hx
    obtain ⟨t, ht, hk, rfl⟩ := hspells.names s hs x hxs
    obtain ⟨start, hspan, hbytes⟩ := hreads.spelled ht hk
    obtain ⟨first, stop, hfirst, _, hlt, hle⟩ := hreads.span ht
    -- the name kept the place of its token on the way through the tree
    have hstart : t.pos = start := congrArg Token.pos hspan
    refine ⟨.inr (.inr ⟨i, se, rfl⟩), by simp, start, congrArg some (hpos.trans hstart),
      by omega, .inl (by omega), ?_⟩
    intro se' hse'
    cases hse'
    rw [show se.name = t.text from hname]
    exact ⟨⟨toks, hlex, hspan ▸ ht⟩, hbytes⟩
  | accepted toks p hlex hspells hscoped hc =>
    rw [hc] at h
    cases h

theorem failsAs_lexical_iff {c : Compiler} {text : Bytes} :
    FailsAs c text .lexical ↔ ∃ b ∈ text, isLegal b = false := by
  have hlegal : (∃ b ∈ text, isLegal b = false) ↔ ¬∃ toks, lex text = .ok toks := by
    rw [exists_lex_eq_ok_iff]
    simp
  rw [hlegal]
  cases verdict c text with
  | illegal e hlex h => simp [FailsAs, h, hlex]
  | ungrammatical toks e hlex hparse h => simp [FailsAs, h, hlex]
  | offends toks p i e x hlex hspells hscoped hx hpos hname h => simp [FailsAs, h, hlex]
  | accepted toks p hlex hspells hscoped h => simp [FailsAs, h, hlex]

theorem failsAs_grammar_iff {c : Compiler} {text : Bytes} :
    FailsAs c text .grammar ↔
      ∃ toks, lex text = .ok toks ∧ ¬Sentence (toks.map Token.kind) := by
  simp only [sentence_iff]
  cases verdict c text with
  | illegal e hlex h => simp [FailsAs, h, hlex]
  | ungrammatical toks e hlex hparse h =>
    have hnot : ∀ ss, ¬Spells toks ss := by
      intro ss hss
      rw [parse_eq_ok_iff (p := ⟨ss⟩) |>.2 hss] at hparse
      cases hparse
    simpa [FailsAs, h, hlex] using hnot
  | offends toks p i e x hlex hspells hscoped hx hpos hname h =>
    simpa [FailsAs, h, hlex] using ⟨_, hspells⟩
  | accepted toks p hlex hspells hscoped h => simpa [FailsAs, h, hlex] using ⟨_, hspells⟩

theorem failsAs_semantic_iff {c : Compiler} {text : Bytes} :
    FailsAs c text .semantic ↔ ∃ p, program text = .ok p ∧ ¬Scoped [] p.stmts := by
  cases verdict c text with
  | illegal e hlex h => simp [FailsAs, h, program_eq_ok_iff, hlex]
  | ungrammatical toks e hlex hparse h =>
    simp only [program, tokens, hlex, hparse, Except.mapError]
    simp [FailsAs, h]
  | offends toks p i e x hlex hspells hscoped hx hpos hname h =>
    have hp : program text = .ok p := program_eq_ok_iff.2 ⟨toks, hlex, hspells⟩
    simpa [FailsAs, h, hp] using hscoped
  | accepted toks p hlex hspells hscoped h =>
    have hp : program text = .ok p := program_eq_ok_iff.2 ⟨toks, hlex, hspells⟩
    simpa [FailsAs, h, hp] using hscoped

/-- Whether and how a text is refused is told by its bytes, by the kinds of its tokens and by the
names in its statements, in this order; every error is diagnosed. -/
theorem compile_error_classified (c : Compiler) (text : Bytes) :
    (∀ e, compile c text = .error e → Diagnoses text e) ∧
    (FailsAs c text .lexical ↔ ∃ b ∈ text, isLegal b = false) ∧
    (FailsAs c text .grammar ↔ (∀ b ∈ text, isLegal b) ∧
      ∃ toks, lex text = .ok toks ∧ ¬Sentence (toks.map Token.kind)) ∧
    (FailsAs c text .semantic ↔ ∃ toks ss, lex text = .ok toks ∧
      Sentence (toks.map Token.kind) ∧ Spells toks ss ∧
      (¬(declared ss).Nodup ∨ ReadsUndeclared ss)) := by
  refine ⟨fun e => diagnoses, failsAs_lexical_iff, ?_, ?_⟩
  · rw [failsAs_grammar_iff]
    constructor
    · rintro ⟨toks, hlex, hnot⟩
      exact ⟨(lex_eq_ok_iff.1 hlex).isLegal, toks, hlex, hnot⟩
    · exact fun h => h.2
  · have hfault : ∀ p, program text = .ok p →
        (¬Scoped [] p.stmts ↔ ¬(declared p.stmts).Nodup ∨ ReadsUndeclared p.stmts) := by
      intro p hp
      have hknown : ∀ s ∈ p.stmts, s.Known := fun s hs => (program_wellFormed hp s hs).known
      rw [scoped_iff, not_and_or, not_and_or, not_not]
      exact or_iff_right (not_not_intro hknown)
    rw [failsAs_semantic_iff]
    constructor
    · rintro ⟨p, hp, hnot⟩
      obtain ⟨toks, hlex, hspells⟩ := program_eq_ok_iff.1 hp
      exact ⟨toks, p.stmts, hlex, sentence_iff.2 ⟨_, hspells⟩, hspells, (hfault p hp).1 hnot⟩
    · rintro ⟨toks, ss, hlex, _, hspells, hfaulty⟩
      have hp : program text = .ok ⟨ss⟩ := program_eq_ok_iff.2 ⟨toks, hlex, hspells⟩
      exact ⟨⟨ss⟩, hp, (hfault _ hp).2 hfaulty⟩

end Source

end LetExit
