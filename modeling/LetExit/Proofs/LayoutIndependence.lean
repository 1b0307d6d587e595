import Mathlib.Data.List.Forall2
import LetExit.Proofs.SyntaxErrors
import LetExit.Source

/-!
# Layout does not matter

Two texts with the same kinds and texts of tokens differ only in where their
tokens stand. Both are compiled side by side here. Positions are carried along
by every node and every variable, but no decision looks at them: the two runs
read the same statements, generate the same code, and fail at the same token
if they fail.
-/

set_option autoImplicit false

namespace LetExit

open Grammar LetExit.Parser Codegen

def Token.label (t : Token) : Kind × Bytes := (t.kind, t.text)

theorem Token.kind_eq {t t' : Token} (h : t.label = t'.label) : t.kind = t'.kind :=
  congrArg Prod.fst h

theorem Token.text_eq {t t' : Token} (h : t.label = t'.label) : t.text = t'.text :=
  congrArg Prod.snd h

def Var.bare (v : Var) : Var := { v with pos := 0 }

def Twins (toks toks' : List Token) (t t' : Token) : Prop :=
  t.label = t'.label ∧ ∃ i : Nat, toks[i]? = some t ∧ toks'[i]? = some t'

theorem Twins.label_eq {toks toks' : List Token} {t t' : Token} (h : Twins toks toks' t t') :
    t.label = t'.label :=
  h.1

section Labels

variable {toks toks' : List Token}

theorem map_kind_eq (h : toks.map Token.label = toks'.map Token.label) :
    toks.map Token.kind = toks'.map Token.kind := by
  have hkind : Token.kind = Prod.fst ∘ Token.label := rfl
  rw [hkind, ← List.map_map, ← List.map_map, h]

theorem getElem?_label_eq (h : toks.map Token.label = toks'.map Token.label) (i : Nat) :
    toks[i]?.map Token.label = toks'[i]?.map Token.label := by
  rw [← List.getElem?_map, ← List.getElem?_map, h]

theorem forall₂_twins (h : toks.map Token.label = toks'.map Token.label) :
    List.Forall₂ (Twins toks toks') toks toks' := by
  have hlen : toks.length = toks'.length := by simpa using congrArg List.length h
  refine List.forall₂_iff_get.2 ⟨hlen, fun i hi hi' => ?_⟩
  have hlabel := getElem?_label_eq h i
  rw [List.getElem?_eq_getElem hi, List.getElem?_eq_getElem hi'] at hlabel
  exact ⟨Option.some.inj hlabel, i, List.getElem?_eq_getElem hi, List.getElem?_eq_getElem hi'⟩

end Labels

/-! Trees that are read from related tokens are related node by node. -/

section Trees

variable {R : Token → Token → Prop}

inductive Expr.Twin (R : Token → Token → Prop) : Expr → Expr → Prop where
  | literal {t t' : Token} (h : R t t') :
      Twin R (.literal t.span t.text) (.literal t'.span t'.text)
  | var {t t' : Token} (h : R t t') : Twin R (.var t.toName) (.var t'.toName)

inductive Stmt.Twin (R : Token → Token → Prop) : Stmt → Stmt → Prop where
  | declare {span span' : Span} {t t' : Token} {value value' : Expr} (hname : R t t')
      (hvalue : value.Twin R value') :
      Twin R (.declare span t.toName value) (.declare span' t'.toName value')
  | exit {span span' : Span} {status status' : Expr} (hstatus : status.Twin R status') :
      Twin R (.exit span status) (.exit span' status')

theorem Grammar.Operand.twin {t t' : Token} {e : Expr} (h : Grammar.Operand t e) (ht : R t t')
    (hlabel : t.label = t'.label) : ∃ e', Grammar.Operand t' e' ∧ e.Twin R e' := by
  have hkind := Token.kind_eq hlabel
  cases h with
  | literal hk => exact ⟨_, .literal t' (hkind ▸ hk), .literal ht⟩
  | var hk => exact ⟨_, .var t' (hkind ▸ hk), .var ht⟩

theorem Grammar.Spells.twin (hR : ∀ {t t'}, R t t' → t.label = t'.label) {toks toks' : List Token}
    {ss : List Stmt} (h : Spells toks ss) (htoks : List.Forall₂ R toks toks') :
    ∃ ss', Spells toks' ss' ∧ List.Forall₂ (Stmt.Twin R) ss ss' := by
  have hkind : ∀ {t t' : Token} {k : Kind}, R t t' → t.kind = k → t'.kind = k := by
    intro t t' k ht hk
    exact (Token.kind_eq (hR ht)).symm.trans hk
  induction h generalizing toks' with
  | nil =>
    cases htoks
    exact ⟨[], .nil, .nil⟩
  | @cons block rest s ss hblock _ ih =>
    cases hblock with
    | exit word opening operand closing semi e hword hopen hoperand hclose hsemi =>
      simp only [List.cons_append, List.nil_append, List.forall₂_cons_left_iff] at htoks
      obtain ⟨word', _, r₁, ⟨opening', _, r₂, ⟨operand', _, r₃, ⟨closing', _, r₄,
        ⟨semi', rest', r₅, hrest, rfl⟩, rfl⟩, rfl⟩, rfl⟩, rfl⟩ := htoks
      obtain ⟨e', hoperand', he⟩ := hoperand.twin r₃ (hR r₃)
      obtain ⟨ss', hss', htwins⟩ := ih hrest
      exact ⟨_, .cons (.exit word' opening' operand' closing' semi' e' (hkind r₁ hword)
        (hkind r₂ hopen) hoperand' (hkind r₄ hclose) (hkind r₅ hsemi)) hss',
        .cons (.exit he) htwins⟩
    | declare word name eq operand semi e hword hname heq hoperand hsemi =>
      simp only [List.cons_append, List.nil_append, List.forall₂_cons_left_iff] at htoks
      obtain ⟨word', _, r₁, ⟨name', _, r₂, ⟨eq', _, r₃, ⟨operand', _, r₄,
        ⟨semi', rest', r₅, hrest, rfl⟩, rfl⟩, rfl⟩, rfl⟩, rfl⟩ := htoks
      obtain ⟨e', hoperand', he⟩ := hoperand.twin r₄ (hR r₄)
      obtain ⟨ss', hss', htwins⟩ := ih hrest
      exact ⟨_, .cons (.declare word' name' eq' operand' semi' e' (hkind r₁ hword)
        (hkind r₂ hname) (hkind r₃ heq) hoperand' (hkind r₅ hsemi)) hss',
        .cons (.declare r₂ he) htwins⟩

end Trees

/-! The generator runs on both trees at once. -/

namespace Codegen

structure State.Alike (s s' : State) : Prop where
  depth : s.depth = s'.depth
  vars : s.vars.map Var.bare = s'.vars.map Var.bare
  exited : s.exited = s'.exited

/-- Both runs succeed with related values, or both blame the name of related tokens for the same
reason. -/
inductive Together {α : Type} (R : Token → Token → Prop) (P : α → α → Prop) :
    Except Fault α → Except Fault α → Prop where
  | ok {a a' : α} (h : P a a') : Together R P (.ok a) (.ok a')
  | fault {t t' : Token} {complaint : Bytes} (h : R t t') :
      Together R P (.error (.semantic ⟨t.pos, t.text, complaint⟩))
        (.error (.semantic ⟨t'.pos, t'.text, complaint⟩))

section Runs

variable {R : Token → Token → Prop} {s s' : State}

theorem State.Alike.find?_eq (h : s.Alike s') (name : Bytes) :
    (s.find? name).map Var.bare = (s'.find? name).map Var.bare := by
  have hfind : ∀ s : State,
      (s.find? name).map Var.bare = (s.vars.map Var.bare).find? (·.name == name) := by
    intro s
    rw [List.find?_map]
    rfl
  rw [hfind, hfind, h.vars]

theorem State.Alike.declare (h : s.Alike s') {x x' : Name} (hx : x.text = x'.text) :
    (s.declare x).Alike (s'.declare x') := by
  refine ⟨h.depth, ?_, h.exited⟩
  simp only [State.declare, List.map_cons, h.vars, Var.bare, h.depth, hx]

theorem State.Alike.emit (h : s.Alike s') (code : List Instr) :
    (s.emit code).Alike (s'.emit code) :=
  ⟨by rw [State.emit, State.emit, h.depth], h.vars, h.exited⟩

variable (hR : ∀ {t t'}, R t t' → t.label = t'.label)
include hR

theorem expr_together (hs : s.Alike s') {e e' : Expr} (h : e.Twin R e') :
    Together R (fun code code' => code = code') (expr s e) (expr s' e') := by
  cases h with
  | @literal t t' ht =>
    rw [expr, expr, Token.text_eq (hR ht)]
    exact .ok rfl
  | @var t t' ht =>
    have htext : t.toName.text = t'.toName.text := Token.text_eq (hR ht)
    have hfind := hs.find?_eq t'.toName.text
    rw [← htext] at hfind
    cases hv : s.find? t.toName.text with
    | none =>
      rw [hv, htext] at hfind
      have hv' := Option.map_eq_none_iff.1 hfind.symm
      rw [expr, expr, hv, hv']
      exact .fault ht
    | some v =>
      rw [hv, htext] at hfind
      obtain ⟨v', hv', hbare⟩ := Option.map_eq_some_iff.1 hfind.symm
      have hslot : v'.bare.slot = v.bare.slot := by rw [hbare]
      have hdisp : s.displacement v = s'.displacement v' := by
        rw [State.displacement, State.displacement, hs.depth, show v'.slot = v.slot from hslot]
      rw [expr, expr, hv, hv']
      simp only [hdisp]
      exact .ok rfl

theorem stmt_together (target : Target) (hs : s.Alike s') {x x' : Stmt} (h : x.Twin R x') :
    Together R (fun a a' => a.1 = a'.1 ∧ a.2.Alike a'.2) (stmt target s x)
      (stmt target s' x') := by
  cases h with
  | @declare span span' t t' value value' ht hvalue =>
    have htext : t.toName.text = t'.toName.text := Token.text_eq (hR ht)
    -- the name is taken in both runs or in neither
    have hused : (s.find? t.toName.text).isSome = (s'.find? t'.toName.text).isSome := by
      have hfind := congrArg Option.isSome (hs.find?_eq t'.toName.text)
      rw [htext]
      simpa using hfind
    have hdeclared := hs.declare htext
    by_cases hdup : (s.find? t.toName.text).isSome
    · rw [stmt, stmt, if_pos hdup, if_pos (hused ▸ hdup)]
      exact .fault ht
    · have hcode := expr_together hR hdeclared hvalue
      rw [stmt, stmt, if_neg hdup, if_neg (hused ▸ hdup)]
      generalize expr (s.declare t.toName) value = run at hcode ⊢
      generalize expr (s'.declare t'.toName) value' = run' at hcode ⊢
      cases hcode with
      | ok h =>
        subst h
        exact .ok ⟨rfl, hdeclared.emit _⟩
      | fault h => exact .fault h
  | @exit span span' status status' hstatus =>
    have hcode := expr_together hR hs hstatus
    rw [stmt, stmt]
    generalize expr s status = run at hcode ⊢
    generalize expr s' status' = run' at hcode ⊢
    cases hcode with
    | ok h =>
      subst h
      exact .ok ⟨rfl, (hs.emit _).depth, hs.vars, rfl⟩
    | fault h => exact .fault h

/-- All statements: the same code, or the same fault of the statement with the same number. -/
theorem stmtsFrom_together (target : Target) {ss ss' : List Stmt}
    (h : List.Forall₂ (Stmt.Twin R) ss ss') (i : Nat) (hs : s.Alike s') :
    (∃ code after after', stmtsFrom target i s ss = .ok (code, after) ∧
      stmtsFrom target i s' ss' = .ok (code, after') ∧ after.Alike after') ∨
    ∃ j t t' complaint, R t t' ∧
      stmtsFrom target i s ss = .error ⟨j, .semantic ⟨t.pos, t.text, complaint⟩⟩ ∧
      stmtsFrom target i s' ss' = .error ⟨j, .semantic ⟨t'.pos, t'.text, complaint⟩⟩ := by
  induction h generalizing i s s' with
  | nil => exact .inl ⟨[], s, s', rfl, rfl, hs⟩
  | @cons x x' rest rest' hx _ ih =>
    have hstep := stmt_together hR target hs hx
    rw [stmtsFrom, stmtsFrom]
    generalize stmt target s x = run at hstep ⊢
    generalize stmt target s' x' = run' at hstep ⊢
    cases hstep with
    | fault h => exact .inr ⟨i, _, _, _, h, rfl, rfl⟩
    | @ok a a' h =>
      obtain ⟨code, after⟩ := a
      obtain ⟨code', after'⟩ := a'
      obtain ⟨rfl, hafter⟩ := h
      rcases ih (i + 1) hafter with ⟨more, last, last', hrun, hrun', hlast⟩ |
        ⟨j, t, t', complaint, ht, hrun, hrun'⟩
      · exact .inl ⟨code ++ more, last, last', by simp [hrun], by simp [hrun'], hlast⟩
      · exact .inr ⟨j, t, t', complaint, ht, by simp [hrun], by simp [hrun']⟩

end Runs

end Codegen

structure Object.Alike (o o' : Object) : Prop where
  text : o.text = o'.text
  exited : o.exited = o'.exited
  vars : o.vars.map Var.bare = o'.vars.map Var.bare

theorem Var.map_bare_sort (vars : List Var) :
    (Var.sort vars).map Var.bare = Var.sort (vars.map Var.bare) :=
  List.map_mergeSort fun _ _ _ _ => rfl

theorem Compiler.compileProgram_together (c : Compiler) {R : Token → Token → Prop}
    (hR : ∀ {t t'}, R t t' → t.label = t'.label) {p p' : Program}
    (h : List.Forall₂ (Stmt.Twin R) p.stmts p'.stmts) :
    (∃ o o', c.compileProgram p = .ok o ∧ c.compileProgram p' = .ok o' ∧ o.Alike o') ∨
    ∃ j t t' complaint, R t t' ∧
      c.compileProgram p = .error ⟨j, .semantic ⟨t.pos, t.text, complaint⟩⟩ ∧
      c.compileProgram p' = .error ⟨j, .semantic ⟨t'.pos, t'.text, complaint⟩⟩ := by
  have hinitial : State.initial.Alike .initial := ⟨rfl, rfl, rfl⟩
  rcases stmtsFrom_together hR c.target h 0 hinitial with
    ⟨code, after, after', hrun, hrun', halike⟩ | ⟨j, t, t', complaint, ht, hrun, hrun'⟩
  · refine .inl ⟨_, _, by rw [Compiler.compileProgram, hrun], by rw [Compiler.compileProgram, hrun'],
      ?_, halike.exited, ?_⟩
    · simp only [defaultExit, halike.exited]
    · rw [Var.map_bare_sort, Var.map_bare_sort, halike.vars]
  · exact .inr ⟨j, t, t', complaint, ht, by rw [Compiler.compileProgram, hrun],
      by rw [Compiler.compileProgram, hrun']⟩

/-- The positions are those of the tokens at the same index, or the ends of the last tokens. -/
def SamePlace (toks toks' : List Token) (pos pos' : Int) : Prop :=
  (∃ (i : Nat) (t t' : Token), toks[i]? = some t ∧ toks'[i]? = some t' ∧
    pos = t.pos ∧ pos' = t'.pos) ∨
  ∃ t t', toks.getLast? = some t ∧ toks'.getLast? = some t' ∧ pos = t.stop ∧ pos' = t'.stop

theorem Twins.samePlace {toks toks' : List Token} {t t' : Token} (h : Twins toks toks' t t') :
    SamePlace toks toks' t.pos t'.pos := by
  obtain ⟨-, i, hi, hi'⟩ := h
  exact .inl ⟨i, t, t', hi, hi', rfl, rfl⟩

theorem Token.describe_eq {t t' : Token} (h : t.label = t'.label) : t.describe = t'.describe := by
  rw [Token.describe, Token.describe, Token.kind_eq h, Token.text_eq h]

theorem error_together {toks toks' : List Token} (h : toks.map Token.label = toks'.map Token.label)
    (hne : toks ≠ []) (i : Nat) (wanted : Wanted) :
    ((Cursor.atIndex toks i).error wanted).message =
        ((Cursor.atIndex toks' i).error wanted).message ∧
      SamePlace toks toks' ((Cursor.atIndex toks i).error wanted).pos
        ((Cursor.atIndex toks' i).error wanted).pos := by
  have hlabel := getElem?_label_eq h i
  cases ht : toks[i]? with
  | some t =>
    rw [ht, Option.map_some, eq_comm, Option.map_eq_some_iff] at hlabel
    obtain ⟨t', ht', hl⟩ := hlabel
    rw [Cursor.atIndex_of_some ht, Cursor.atIndex_of_some ht']
    refine ⟨?_, .inl ⟨i, t, t', ht, ht', rfl, rfl⟩⟩
    simp only [Cursor.error, SyntaxError.message, Token.describe_eq hl]
  | none =>
    rw [ht, Option.map_none, eq_comm, Option.map_eq_none_iff] at hlabel
    -- behind the end the error stands where the last token stops, and both lists have one
    have hlast : toks.getLast?.map Token.label = toks'.getLast?.map Token.label := by
      rw [← List.getLast?_map, ← List.getLast?_map, h]
    rw [List.getLast?_eq_some_getLast hne, Option.map_some, eq_comm,
      Option.map_eq_some_iff] at hlast
    obtain ⟨last', hlast', -⟩ := hlast
    rw [Cursor.atIndex_of_none ht, Cursor.atIndex_of_none hlabel]
    refine ⟨rfl, .inr ⟨_, last', List.getLast?_eq_some_getLast hne, hlast', ?_, ?_⟩⟩
    · simp [Cursor.error, Cursor.ofTokens, List.getLast?_eq_some_getLast hne]
    · simp [Cursor.error, Cursor.ofTokens, hlast']

theorem parse_together {toks toks' : List Token}
    (h : toks.map Token.label = toks'.map Token.label) :
    (∃ p p', parse toks = .ok p ∧ parse toks' = .ok p' ∧
      List.Forall₂ (Stmt.Twin (Twins toks toks')) p.stmts p'.stmts) ∨
    ∃ e e', parse toks = .error e ∧ parse toks' = .error e' ∧ e.message = e'.message ∧
      SamePlace toks toks' e.pos e'.pos := by
  cases hparse : parse toks with
  | ok p =>
    have htwins := forall₂_twins h
    obtain ⟨ss', hspells, hss⟩ :=
      (parse_eq_ok_iff.1 hparse).twin Twins.label_eq htwins
    exact .inl ⟨p, ⟨ss'⟩, rfl, parse_eq_ok_iff.2 hspells, hss⟩
  | error e =>
    obtain ⟨i, wanted, hstuck, rfl⟩ := parse_eq_error_iff.1 hparse
    have hne : toks ≠ [] := by
      rintro rfl
      rw [parse_eq_ok_iff (p := ⟨[]⟩) |>.2 .nil] at hparse
      cases hparse
    have hparse' : parse toks' = .error ((Cursor.atIndex toks' i).error wanted) :=
      parse_eq_error_iff.2 ⟨i, wanted, map_kind_eq h ▸ hstuck, rfl⟩
    obtain ⟨hmessage, hplace⟩ := error_together h hne i wanted
    exact .inr ⟨_, _, rfl, hparse', hmessage, hplace⟩

namespace Source

/-- How two compilations of texts that look alike end: both with the same code, or both with the
same message about the same place. -/
inductive Alike (toks toks' : List Token) : Except Error Object → Except Error Object → Prop where
  | accepted {o o' : Object} (h : o.Alike o') : Alike toks toks' (.ok o) (.ok o')
  | refused {e e' : Error} {pos pos' : Int} (hcategory : e.category = e'.category)
      (hmessage : e.message = e'.message) (hpos : e.position? = some pos)
      (hpos' : e'.position? = some pos') (hplace : SamePlace toks toks' pos pos') :
      Alike toks toks' (.error e) (.error e')

section Stages

variable {c : Compiler} {text : Bytes} {toks : List Token}

theorem compile_of_parse_error (hlex : lex text = .ok toks) {e : SyntaxError}
    (h : parse toks = .error e) :
    compile c text = .error (.wrap (utf8 "parse") (.grammar e)) := by
  rw [compile, program, tokens, hlex]
  simp only [Except.mapError, h]

theorem compile_of_parse_ok (hlex : lex text = .ok toks) {p : Program} (h : parse toks = .ok p) :
    compile c text =
      (c.compileProgram p).mapError fun e => .wrap (utf8 "compile") e.toError := by
  rw [compile, program, tokens, hlex]
  simp only [Except.mapError, h]

end Stages

theorem message_wrap_eq (context : Bytes) {e e' : Error} (h : e.message = e'.message) :
    (Error.wrap context e).message = (Error.wrap context e').message := by
  rw [Error.message, Error.message, h]

/-- Texts whose tokens agree in kind and text are compiled alike, wherever the tokens stand. -/
theorem layout_never_influences_compilation (c : Compiler) {text text' : Bytes}
    {toks toks' : List Token} (hlex : lex text = .ok toks) (hlex' : lex text' = .ok toks')
    (h : toks.map Token.label = toks'.map Token.label) :
    Alike toks toks' (compile c text) (compile c text') := by
  rcases parse_together h with ⟨p, p', hp, hp', htwins⟩ | ⟨e, e', he, he', hmessage, hplace⟩
  · rw [compile_of_parse_ok hlex hp, compile_of_parse_ok hlex' hp']
    rcases c.compileProgram_together Twins.label_eq htwins with
      ⟨o, o', ho, ho', halike⟩ | ⟨j, t, t', complaint, ht, hc, hc'⟩
    · rw [ho, ho']
      exact .accepted halike
    · rw [hc, hc']
      refine .refused rfl ?_ rfl rfl ht.samePlace
      apply message_wrap_eq
      apply message_wrap_eq
      show complaint ++ utf8 ": " ++ t.text = complaint ++ utf8 ": " ++ t'.text
      rw [Token.text_eq ht.label_eq]
  · rw [compile_of_parse_error hlex he, compile_of_parse_error hlex' he']
    exact .refused rfl (message_wrap_eq _ hmessage) rfl rfl hplace

theorem respaced_source_refused_alike :
    ∃ toks toks', lex (utf8 "jen a=b;") = .ok toks ∧ lex (utf8 "\njen a\t= b ;") = .ok toks' ∧
      toks.map Token.label = toks'.map Token.label ∧ toks ≠ toks' ∧
      Alike toks toks' (compile ⟨.linux, utf8 "a.asm"⟩ (utf8 "jen a=b;"))
        (compile ⟨.linux, utf8 "a.asm"⟩ (utf8 "\njen a\t= b ;")) := by
  have hlex : lex (utf8 "jen a=b;") = .ok [⟨.letWord, [], 0, 3⟩, ⟨.ident, utf8 "a", 4, 5⟩,
      ⟨.eq, [], 5, 6⟩, ⟨.ident, utf8 "b", 6, 7⟩, ⟨.semi, [], 7, 8⟩] := by decide +kernel
  have hlex' : lex (utf8 "\njen a\t= b ;") = .ok [⟨.letWord, [], 1, 4⟩, ⟨.ident, utf8 "a", 5, 6⟩,
      ⟨.eq, [], 7, 8⟩, ⟨.ident, utf8 "b", 9, 10⟩, ⟨.semi, [], 11, 12⟩] := by decide +kernel
  exact ⟨_, _, hlex, hlex', rfl, by decide, layout_never_influences_compilation _ hlex hlex' rfl⟩

end Source

end LetExit
