import LetExit.Proofs.RoundTrip
import LetExit.Proofs.LayoutIndependence

/-!
# One canonical text for all layouts

The canonical text of a program depends on the program without its places,
and gives it back. The tokens of a source text, without their places, stand
for the same thing: they are the lexemes that the canonical text lays out. So
two source texts share their canonical text exactly if their tokens look
alike, and a canonical text is its own.
-/

set_option autoImplicit false

namespace LetExit

open Lexer Grammar

/-! The canonical text does not know places. -/

theorem Expr.lexeme_bare (e : Expr) : e.bare.lexeme = e.lexeme := by
  cases e <;> rfl

theorem Stmt.layout_bare (s : Stmt) : s.bare.layout = s.layout := by
  cases s with
  | declare span name value => simp only [Stmt.bare, Stmt.layout, Name.bare, Expr.lexeme_bare]
  | exit span status => simp only [Stmt.bare, Stmt.layout, Expr.lexeme_bare]
  | foreign node => rfl

theorem layoutOf_map_bare (ss : List Stmt) : layoutOf (ss.map Stmt.bare) = layoutOf ss := by
  rw [layoutOf, List.flatMap_map]
  simp only [Stmt.layout_bare, layoutOf]

theorem Program.layoutOf_eq {p q : Program} (h : p.bare = q.bare) :
    layoutOf p.stmts = layoutOf q.stmts := by
  rw [← layoutOf_map_bare p.stmts, ← layoutOf_map_bare q.stmts]
  exact congrArg (fun r : Program => layoutOf r.stmts) h

theorem Program.WellFormed.format_eq_iff {p q : Program} (hp : p.WellFormed) (hq : q.WellFormed) :
    format (.program p) = format (.program q) ↔ p.bare = q.bare := by
  constructor
  · intro h
    obtain ⟨text, r, hformat, hread, hbare⟩ := hp.reads_back
    obtain ⟨text', r', hformat', hread', hbare'⟩ := hq.reads_back
    rw [hformat, hformat'] at h
    cases h
    rw [hread] at hread'
    cases hread'
    exact hbare.symm.trans hbare'
  · intro h
    rw [hp.format_eq, hq.format_eq, Program.layoutOf_eq h]

/-! The tokens of a text look like the lexemes that its canonical text lays out. -/

def Lexer.Lexeme.label (l : Lexeme) : Kind × Bytes := (l.kind, l.text)

def Layout.labels (layout : Layout) : List (Kind × Bytes) := layout.map fun x => x.1.label

/-- The token carries a text only if its kind calls for one. -/
def Token.Plain (t : Token) : Prop := t.text = Lexeme.text ⟨t.kind, t.text⟩

theorem Lexer.Reads.plain {pos : Nat} {text : Bytes} {toks : List Token} (h : Reads pos text toks) :
    ∀ t ∈ toks, t.Plain := by
  intro t ht
  obtain ⟨_, ⟨kind, spelling⟩, _, _, _, _, rfl⟩ := h.place ht
  cases kind <;> rfl

theorem Token.Plain.label_eq {t : Token} (h : t.Plain) {l : Lexeme} (hkind : t.kind = l.kind)
    (htext : ∀ spelling, Lexeme.text ⟨l.kind, spelling⟩ = l.text) : t.label = l.label := by
  rw [Token.Plain, hkind, htext] at h
  rw [Token.label, Lexeme.label, hkind, h]

theorem Grammar.Operand.label_eq {t : Token} {e : Expr} (h : Grammar.Operand t e) :
    t.label = e.lexeme.label := by
  cases h with
  | literal hk => rw [Token.label, hk]; rfl
  | var hk => rw [Token.label, hk]; rfl

theorem Grammar.Block.labels_eq {block : List Token} {s : Stmt} (h : Block block s)
    (hplain : ∀ t ∈ block, t.Plain) : block.map Token.label = s.layout.labels := by
  simp only [Layout.labels]
  cases h with
  | exit word opening operand closing semi e hword hopen hoperand hclose hsemi =>
    simp only [List.forall_mem_cons] at hplain
    obtain ⟨pword, popen, -, pclose, psemi, -⟩ := hplain
    simp only [Stmt.layout, List.map_cons, List.map_nil, hoperand.label_eq,
      pword.label_eq (l := ⟨.exit, utf8 "finu"⟩) hword fun _ => rfl,
      popen.label_eq (l := ⟨.openParen, [40]⟩) hopen fun _ => rfl,
      pclose.label_eq (l := ⟨.closeParen, [41]⟩) hclose fun _ => rfl,
      psemi.label_eq (l := ⟨.semi, [59]⟩) hsemi fun _ => rfl]
  | declare word name eq operand semi e hword hname heq hoperand hsemi =>
    simp only [List.forall_mem_cons] at hplain
    obtain ⟨pword, -, peq, -, psemi, -⟩ := hplain
    have hlabel : name.label = Lexeme.label ⟨.ident, name.toName.text⟩ :=
      Grammar.Operand.label_eq (.var name hname)
    simp only [Stmt.layout, List.map_cons, List.map_nil, hoperand.label_eq, hlabel,
      pword.label_eq (l := ⟨.letWord, utf8 "jen"⟩) hword fun _ => rfl,
      peq.label_eq (l := ⟨.eq, [61]⟩) heq fun _ => rfl,
      psemi.label_eq (l := ⟨.semi, [59]⟩) hsemi fun _ => rfl]

theorem Grammar.Spells.labels_eq {toks : List Token} {ss : List Stmt} (h : Spells toks ss)
    (hplain : ∀ t ∈ toks, t.Plain) : toks.map Token.label = (layoutOf ss).labels := by
  induction h with
  | nil => rfl
  | @cons block rest s ss hblock _ ih =>
    rw [List.forall_mem_append] at hplain
    rw [List.map_append, hblock.labels_eq hplain.1, ih hplain.2, layoutOf, layoutOf,
      List.flatMap_cons, Layout.labels, Layout.labels, Layout.labels, List.map_append]

section Twins

variable {R : Token → Token → Prop} (hR : ∀ {t t'}, R t t' → t.label = t'.label)
include hR

theorem Expr.Twin.bare_eq {e e' : Expr} (h : e.Twin R e') : e.bare = e'.bare := by
  cases h with
  | literal ht => rw [Expr.bare, Expr.bare, Token.text_eq (hR ht)]
  | var ht =>
    simp only [Expr.bare, Name.bare, Token.toName, Token.text_eq (hR ht)]

theorem Stmt.Twin.bare_eq {s s' : Stmt} (h : s.Twin R s') : s.bare = s'.bare := by
  cases h with
  | declare ht hvalue =>
    simp only [Stmt.bare, Name.bare, Token.toName, Token.text_eq (hR ht), hvalue.bare_eq hR]
  | exit hstatus => rw [Stmt.bare, Stmt.bare, hstatus.bare_eq hR]

end Twins

namespace Source

theorem labels_eq_iff {text text' : Bytes} {toks toks' : List Token} {p q : Program}
    (hlex : lex text = .ok toks) (hlex' : lex text' = .ok toks') (hp : parse toks = .ok p)
    (hq : parse toks' = .ok q) :
    toks.map Token.label = toks'.map Token.label ↔ p.bare = q.bare := by
  constructor
  · intro h
    rcases parse_together h with ⟨p', q', hp', hq', htwins⟩ | ⟨e, e', he, -⟩
    · cases hp.symm.trans hp'
      cases hq.symm.trans hq'
      have hstmts : p.stmts.map Stmt.bare = q.stmts.map Stmt.bare := by
        rw [← List.forall₂_eq_eq_eq, List.forall₂_map_left_iff, List.forall₂_map_right_iff]
        exact htwins.imp fun s s' hs => hs.bare_eq Twins.label_eq
      exact congrArg Program.mk hstmts
    · cases hp.symm.trans he
  · intro h
    rw [(parse_eq_ok_iff.1 hp).labels_eq (lex_eq_ok_iff.1 hlex).plain,
      (parse_eq_ok_iff.1 hq).labels_eq (lex_eq_ok_iff.1 hlex').plain, Program.layoutOf_eq h]

theorem reformat_eq {text first second : Bytes} {p q : Program} (hp : program text = .ok p)
    (hfirst : format (.program p) = .ok first) (hq : program first = .ok q)
    (hsecond : format (.program q) = .ok second) :
    reformat text = .ok ⟨first, q, first == second⟩ := by
  rw [reformat, hp]
  simp only [bind, Except.bind, hfirst, hq, hsecond]
  rfl

/-- Every accepted text has a canonical text, which spells the same program and is its own
canonical text. Two accepted texts share it exactly if their tokens look alike. -/
theorem canonical_text_exists_and_decides_tokens :
    (∀ text p, program text = .ok p → ∃ first q, format (.program p) = .ok first ∧
      program first = .ok q ∧ q.bare = p.bare ∧ format (.program q) = .ok first ∧
      reformat text = .ok ⟨first, q, true⟩) ∧
    ∀ text text' p q, program text = .ok p → program text' = .ok q →
      ∃ toks toks' first first', lex text = .ok toks ∧ lex text' = .ok toks' ∧
        format (.program p) = .ok first ∧ format (.program q) = .ok first' ∧
        (first = first' ↔ toks.map Token.label = toks'.map Token.label) := by
  constructor
  · intro text p hp
    have hwf := program_wellFormed hp
    obtain ⟨first, q, hfirst, hq, hbare⟩ := hwf.reads_back
    -- what is read back differs in places only, and these are not written
    have hsecond : format (.program q) = .ok first := by
      rw [← hfirst, (program_wellFormed hq).format_eq_iff hwf]
      exact hbare
    refine ⟨first, q, hfirst, hq, hbare, hsecond, ?_⟩
    rw [reformat_eq hp hfirst hq hsecond, beq_self_eq_true]
  · intro text text' p q hp hq
    obtain ⟨toks, hlex, hspells⟩ := program_eq_ok_iff.1 hp
    obtain ⟨toks', hlex', hspells'⟩ := program_eq_ok_iff.1 hq
    have hp' := program_wellFormed hp
    have hq' := program_wellFormed hq
    refine ⟨toks, toks', _, _, hlex, hlex', hp'.format_eq, hq'.format_eq, ?_⟩
    rw [labels_eq_iff hlex hlex' (parse_eq_ok_iff.2 hspells) (parse_eq_ok_iff.2 hspells'),
      ← hp'.format_eq_iff hq', hp'.format_eq, hq'.format_eq, Except.ok.injEq]

theorem respaced_sources_share_canonical_text :
    ∃ p p' q, program (utf8 "jen a=007;finu(a);") = .ok p ∧
      program (utf8 "jen\ta =007\n;finu ( a ) ;") = .ok p' ∧ p ≠ p' ∧
      reformat (utf8 "jen a=007;finu(a);") =
        .ok ⟨utf8 "jen a = 007;\nfinu(a);\n", q, true⟩ ∧
      ∃ toks toks', lex (utf8 "jen a=007;finu(a);") = .ok toks ∧
        lex (utf8 "jen\ta =007\n;finu ( a ) ;") = .ok toks' ∧
        toks.map Token.label = toks'.map Token.label := by
  have hp : program (utf8 "jen a=007;finu(a);") =
      .ok ⟨[.declare ⟨0, 10⟩ ⟨⟨4, 5⟩, utf8 "a"⟩ (.literal ⟨6, 9⟩ (utf8 "007")),
        .exit ⟨10, 18⟩ (.var ⟨⟨15, 16⟩, utf8 "a"⟩)]⟩ := by decide +kernel
  have hp' : program (utf8 "jen\ta =007\n;finu ( a ) ;") =
      .ok ⟨[.declare ⟨0, 12⟩ ⟨⟨4, 5⟩, utf8 "a"⟩ (.literal ⟨7, 10⟩ (utf8 "007")),
        .exit ⟨12, 24⟩ (.var ⟨⟨19, 20⟩, utf8 "a"⟩)]⟩ := by decide +kernel
  obtain ⟨first, q, hfirst, -, -, -, hreformat⟩ :=
    canonical_text_exists_and_decides_tokens.1 _ _ hp
  obtain ⟨toks, toks', text, text', hlex, hlex', htext, htext', hiff⟩ :=
    canonical_text_exists_and_decides_tokens.2 _ _ _ _ hp hp'
  cases hfirst
  cases htext
  cases htext'
  exact ⟨_, _, q, hp, hp', by decide, hreformat, toks, toks', hlex, hlex', hiff.1 rfl⟩

end Source

end LetExit
