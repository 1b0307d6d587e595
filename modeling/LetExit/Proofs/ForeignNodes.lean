import Mathlib.Order.Bounds.Defs
import LetExit.Program.Printer
import LetExit.Proofs.AssemblyText
import LetExit.Proofs.Offences

/-!
# Foreign nodes in writing and compiling

Writing a program and compiling it are two walks over the same statements, and
both stop at a node that is foreign to them. They take the same nodes for
foreign. Writing stops for no other reason, so it gets to the first statement
that is or holds such a node. Compiling checks names on the way and may stop
earlier, or at that statement for the name it declares; if it does neither, it
reports the same node.
-/

set_option autoImplicit false

namespace LetExit

open Codegen

/-- The foreign node of a statement: the statement itself, or the expression that it holds. -/
inductive Stmt.Holds (s : Stmt) : Printer.Fault → Prop where
  | stmt {node : Foreign} (h : s = .foreign node) : Holds s (.stmt node)
  | expr {node : Foreign} (h : s.expr? = some (.foreign node)) : Holds s (.expr node)

/-- What writing and what compiling say of the foreign node of a statement: the same kind of place,
and the name of the same type. -/
inductive Stmt.ReportedAlike (s : Stmt) : Error → Error → Prop where
  | stmt {node : Foreign} (h : s = .foreign node) :
      ReportedAlike s (.plain (utf8 "unsupported stmt: " ++ node.typeName))
        (.plain (utf8 "unsupported statement: " ++ node.typeName))
  | expr {node : Foreign} (h : s.expr? = some (.foreign node)) :
      ReportedAlike s (.wrap (utf8 "expr") (.plain (utf8 "unsupported expr: " ++ node.typeName)))
        (.plain (utf8 "unsupported expression: " ++ node.typeName))

theorem Expr.not_known_iff {e : Expr} : ¬e.Known ↔ ∃ node, e = .foreign node := by
  cases e with
  | literal span digits => simp [Expr.Known]
  | var x => simp [Expr.Known]
  | foreign node => simp [Expr.Known]

theorem Stmt.not_known_iff {s : Stmt} : ¬s.Known ↔ ∃ fault, s.Holds fault := by
  have hexpr : ∀ {e : Expr}, s.expr? = some e → (∀ node, s ≠ .foreign node) →
      (¬e.Known ↔ ∃ fault, s.Holds fault) := by
    intro e he hs
    rw [Expr.not_known_iff]
    constructor
    · rintro ⟨node, rfl⟩
      exact ⟨_, .expr he⟩
    · rintro ⟨fault, hfault⟩
      cases hfault with
      | stmt h => exact absurd h (hs _)
      | @expr node h => exact ⟨node, Option.some.inj (he.symm.trans h)⟩
  cases s with
  | declare span x value => exact hexpr rfl (by simp)
  | exit span status => exact hexpr rfl (by simp)
  | foreign node => exact iff_of_true id ⟨_, .stmt rfl⟩

/-! Writing. -/

namespace Printer

theorem stmt_eq_error_iff {s : Stmt} {fault : Fault} : stmt s = .error fault ↔ s.Holds fault := by
  constructor
  · intro h
    cases s with
    | foreign node => cases h; exact .stmt rfl
    | declare span x value => cases value <;> cases h; exact .expr rfl
    | exit span status => cases status <;> cases h; exact .expr rfl
  · intro h
    cases h with
    | stmt h => rw [h]; rfl
    | expr h => cases s <;> cases h <;> rfl

theorem exists_stmt_eq_ok_iff {s : Stmt} : (∃ line, stmt s = .ok line) ↔ s.Known := by
  rw [← not_iff_not, Stmt.not_known_iff]
  simp only [← stmt_eq_error_iff]
  cases stmt s <;> simp

/-- Writing statements stops at the first that cannot be written, and only there. -/
theorem stmtsFrom_eq_error_iff {i k : Nat} {ss : List Stmt} {fault : Fault} :
    stmtsFrom i ss = .error (k, fault) ↔ ∃ before s after, ss = before ++ s :: after ∧
      (∀ r ∈ before, r.Known) ∧ s.Holds fault ∧ k = i + before.length := by
  induction ss generalizing i with
  | nil => simp [stmtsFrom]
  | cons s ss ih =>
    cases hs : stmt s with
    | error found =>
      rw [stmtsFrom, hs]
      have hunknown : ¬s.Known := Stmt.not_known_iff.2 ⟨found, stmt_eq_error_iff.1 hs⟩
      constructor
      · intro h
        cases h
        exact ⟨[], s, ss, rfl, by simp, stmt_eq_error_iff.1 hs, rfl⟩
      · rintro ⟨before, s', after, hsplit, hbefore, hholds, rfl⟩
        cases before with
        | cons r before =>
          cases hsplit
          exact absurd (hbefore s (by simp)) hunknown
        | nil =>
          cases hsplit
          cases hs.symm.trans (stmt_eq_error_iff.2 hholds)
          rfl
    | ok line =>
      have hknown : s.Known := exists_stmt_eq_ok_iff.1 ⟨line, hs⟩
      have hrest : stmtsFrom (i + 1) ss = .error (k, fault) ↔
          stmtsFrom i (s :: ss) = .error (k, fault) := by
        rw [stmtsFrom, hs]
        cases stmtsFrom (i + 1) ss <;> simp
      rw [← hrest, ih]
      constructor
      · rintro ⟨before, s', after, rfl, hbefore, hholds, rfl⟩
        refine ⟨s :: before, s', after, rfl, List.forall_mem_cons.2 ⟨hknown, hbefore⟩, hholds, ?_⟩
        rw [List.length_cons]
        omega
      · rintro ⟨before, s', after, hsplit, hbefore, hholds, rfl⟩
        cases before with
        | nil =>
          cases hsplit
          exact absurd hknown (Stmt.not_known_iff.2 ⟨fault, hholds⟩)
        | cons r before =>
          cases hsplit
          refine ⟨before, s', after, rfl, (List.forall_mem_cons.1 hbefore).2, hholds, ?_⟩
          rw [List.length_cons]
          omega

end Printer

theorem formatOnto_program_eq_error_iff {text : Bytes} {p : Program} {e : Error} :
    formatOnto text (.program p) = .error e ↔ ∃ before s after fault,
      p.stmts = before ++ s :: after ∧ (∀ r ∈ before, r.Known) ∧ s.Holds fault ∧
      e = .wrap (utf8 "stmt " ++ Bytes.ofNat before.length) fault.toError := by
  have hmap : formatOnto text (.program p) = .error e ↔
      ∃ k fault, Printer.stmtsFrom 0 p.stmts = .error (k, fault) ∧
        Printer.programError (k, fault) = e := by
    rw [formatOnto, format, Printer.program]
    cases Printer.stmtsFrom 0 p.stmts with
    | ok lines => simp [Except.mapError, Except.map]
    | error found => simp [Except.mapError, Except.map, Prod.ext_iff]
  rw [hmap]
  constructor
  · rintro ⟨k, fault, h, rfl⟩
    obtain ⟨before, s, after, hsplit, hbefore, hholds, rfl⟩ := Printer.stmtsFrom_eq_error_iff.1 h
    rw [Nat.zero_add]
    exact ⟨before, s, after, fault, hsplit, hbefore, hholds, rfl⟩
  · rintro ⟨before, s, after, fault, hsplit, hbefore, hholds, rfl⟩
    refine ⟨before.length, fault, ?_, rfl⟩
    exact Printer.stmtsFrom_eq_error_iff.2 ⟨before, s, after, hsplit, hbefore, hholds, by simp⟩

theorem Bytes.ofNat_inj {m n : Nat} (h : Bytes.ofNat m = Bytes.ofNat n) : m = n := by
  rw [← Bytes.decimal_ofNat m, h, Bytes.decimal_ofNat]

theorem formatOnto_program_eq_error_at_iff {text : Bytes} {p : Program} {i : Nat} {e : Error} :
    formatOnto text (.program p) = .error (.wrap (utf8 "stmt " ++ Bytes.ofNat i) e) ↔
      ∃ before s after fault, p.stmts = before ++ s :: after ∧ before.length = i ∧
        (∀ r ∈ before, r.Known) ∧ s.Holds fault ∧ e = fault.toError := by
  rw [formatOnto_program_eq_error_iff]
  constructor
  · rintro ⟨before, s, after, fault, hsplit, hbefore, hholds, he⟩
    obtain ⟨hcontext, rfl⟩ := Error.wrap.inj he
    have hi := Bytes.ofNat_inj (List.append_cancel_left hcontext)
    exact ⟨before, s, after, fault, hsplit, hi.symm, hbefore, hholds, rfl⟩
  · rintro ⟨before, s, after, fault, hsplit, rfl, hbefore, hholds, rfl⟩
    exact ⟨before, s, after, fault, hsplit, hbefore, hholds, rfl⟩

theorem known_or_first_holds (ss : List Stmt) :
    (∀ s ∈ ss, s.Known) ∨ ∃ before s after fault, ss = before ++ s :: after ∧
      (∀ r ∈ before, r.Known) ∧ s.Holds fault := by
  induction ss with
  | nil => exact .inl (by simp)
  | cons s ss ih =>
    by_cases hs : s.Known
    · rcases ih with hss | ⟨before, s', after, fault, rfl, hbefore, hholds⟩
      · exact .inl (List.forall_mem_cons.2 ⟨hs, hss⟩)
      · exact .inr ⟨s :: before, s', after, fault, rfl,
          List.forall_mem_cons.2 ⟨hs, hbefore⟩, hholds⟩
    · obtain ⟨fault, hholds⟩ := Stmt.not_known_iff.1 hs
      exact .inr ⟨[], s, ss, fault, rfl, by simp, hholds⟩

theorem exists_formatOnto_program_eq_error_iff {text : Bytes} {p : Program} :
    (∃ e, formatOnto text (.program p) = .error e) ↔ ∃ s ∈ p.stmts, ¬s.Known := by
  constructor
  · rintro ⟨e, h⟩
    obtain ⟨before, s, after, fault, hsplit, -, hholds, -⟩ := formatOnto_program_eq_error_iff.1 h
    exact ⟨s, by simp [hsplit], Stmt.not_known_iff.2 ⟨fault, hholds⟩⟩
  · rintro ⟨s, hs, hunknown⟩
    rcases known_or_first_holds p.stmts with hknown | ⟨before, s', after, fault, hfirst⟩
    · exact absurd (hknown s hs) hunknown
    · obtain ⟨hsplit, hbefore, hholds⟩ := hfirst
      exact ⟨_, formatOnto_program_eq_error_iff.2
        ⟨before, s', after, fault, hsplit, hbefore, hholds, rfl⟩⟩

theorem isLeast_not_known_iff {ss : List Stmt} {i : Nat} :
    IsLeast {k | ∃ s, ss[k]? = some s ∧ ¬s.Known} i ↔ ∃ before s after,
      ss = before ++ s :: after ∧ before.length = i ∧ (∀ r ∈ before, r.Known) ∧ ¬s.Known := by
  constructor
  · rintro ⟨⟨s, hget, hs⟩, hleast⟩
    obtain ⟨hi, rfl⟩ := List.getElem?_eq_some_iff.1 hget
    refine ⟨ss.take i, ss[i], ss.drop (i + 1), ?_, List.length_take_of_le (Nat.le_of_lt hi), ?_, hs⟩
    · rw [← List.drop_eq_getElem_cons hi, List.take_append_drop]
    · intro r hr
      by_contra hunknown
      obtain ⟨k, hk, rfl⟩ := List.mem_take_iff_getElem.1 hr
      have hle := hleast ⟨_, List.getElem?_eq_getElem (by omega), hunknown⟩
      omega
  · rintro ⟨before, s, after, rfl, rfl, hbefore, hs⟩
    refine ⟨⟨s, by simp, hs⟩, ?_⟩
    rintro k ⟨r, hget, hr⟩
    by_contra hlt
    rw [List.getElem?_append_left (by omega)] at hget
    exact hr (hbefore r (List.mem_of_getElem? hget))

theorem exists_formatOnto_program_eq_error_at_iff {text : Bytes} {p : Program} {i : Nat} :
    (∃ e, formatOnto text (.program p) = .error (.wrap (utf8 "stmt " ++ Bytes.ofNat i) e)) ↔
      IsLeast {k | ∃ s, p.stmts[k]? = some s ∧ ¬s.Known} i := by
  rw [isLeast_not_known_iff]
  constructor
  · rintro ⟨e, h⟩
    obtain ⟨before, s, after, fault, hsplit, hi, hbefore, hholds, -⟩ :=
      formatOnto_program_eq_error_at_iff.1 h
    exact ⟨before, s, after, hsplit, hi, hbefore, Stmt.not_known_iff.2 ⟨fault, hholds⟩⟩
  · rintro ⟨before, s, after, hsplit, hi, hbefore, hs⟩
    obtain ⟨fault, hholds⟩ := Stmt.not_known_iff.1 hs
    exact ⟨fault.toError, formatOnto_program_eq_error_at_iff.2
      ⟨before, s, after, fault, hsplit, hi, hbefore, hholds, rfl⟩⟩

/-! Compiling. -/

theorem Scoped.known {ss : List Stmt} (h : Scoped [] ss) : ∀ s ∈ ss, s.Known :=
  (scoped_iff.1 h).1

theorem Stmt.Offends.semantic_of_known {names : List Bytes} {s : Stmt} {fault : Fault}
    (h : s.Offends names fault) (hs : s.Known) : ∃ e, fault = .semantic e := by
  have hexpr : ∀ {e : Expr} {names : List Bytes}, e.Offends names fault → e.Known →
      ∃ e, fault = .semantic e := by
    intro e names he hknown
    cases he with
    | undeclared => exact ⟨_, rfl⟩
    | foreign => exact hknown.elim
  cases h with
  | redeclared => exact ⟨_, rfl⟩
  | value _ hvalue => exact hexpr hvalue hs
  | status hstatus => exact hexpr hstatus hs
  | foreign => exact hs.elim

theorem Stmt.exists_commits_redeclared_iff {before : List Stmt} {s : Stmt} :
    (∃ x, s.Commits before (.redeclared x)) ↔
      ∃ span x value, s = .declare span x value ∧ x.text ∈ declared before := by
  constructor
  · rintro ⟨x, hx⟩
    cases hx with
    | redeclared hs hearlier => exact ⟨_, x, _, hs, exists_declares_iff.1 hearlier⟩
  · rintro ⟨span, x, value, hs, hx⟩
    exact ⟨x, .redeclared hs (exists_declares_iff.2 hx)⟩

theorem Stmt.Offends.of_holds {before : List Stmt} {s : Stmt} {fault : Fault}
    {found : Printer.Fault} (h : s.Offends (declared before) fault) (hs : s.Holds found) :
    ((∃ x, s.Commits before (.redeclared x)) → ∃ e, fault = .semantic e) ∧
    ((¬∃ x, s.Commits before (.redeclared x)) →
      s.ReportedAlike found.toError fault.toError) := by
  -- the expression is the foreign node, so nothing else can be wrong with it
  have hexpr : ∀ {e : Expr} {names : List Bytes}, s.expr? = some e → e.Offends names fault →
      s.ReportedAlike found.toError fault.toError := by
    intro e names he hoffends
    cases hs with
    | stmt hnode => rw [hnode] at he; cases he
    | expr hnode =>
      obtain rfl := Option.some.inj (he.symm.trans hnode)
      cases hoffends
      exact .expr hnode
  rw [Stmt.exists_commits_redeclared_iff]
  cases h with
  | @redeclared span x value hx =>
    exact ⟨fun _ => ⟨_, rfl⟩, fun hno => absurd ⟨span, x, value, rfl, hx⟩ hno⟩
  | value hx hvalue =>
    refine ⟨?_, fun _ => hexpr rfl hvalue⟩
    rintro ⟨span, y, value, hy, hmem⟩
    cases hy
    exact absurd hmem hx
  | status hstatus => exact ⟨by simp, fun _ => hexpr rfl hstatus⟩
  | foreign =>
    refine ⟨by simp, fun _ => ?_⟩
    cases hs with
    | stmt hnode => cases hnode; exact .stmt rfl
    | expr hnode => cases hnode

/-- Compiling gets no further than the first statement with a foreign node: it stops at an earlier
one, where a name is at fault, or at this one. -/
theorem Compiler.compileProgram_of_not_known (c : Compiler) {before : List Stmt} {s : Stmt}
    (after : List Stmt) (hbefore : ∀ r ∈ before, r.Known) (hs : ¬s.Known) :
    (∃ j < before.length, ∃ e,
      c.compileProgram ⟨before ++ s :: after⟩ = .error ⟨j, .semantic e⟩) ∨
    ∃ fault, s.Offends (declared before) fault ∧
      c.compileProgram ⟨before ++ s :: after⟩ = .error ⟨before.length, fault⟩ := by
  rcases scoped_or_first_offends [] (before ++ s :: after) with
    hscoped | ⟨pre, s', post, fault, hsplit, hpre, hoffends⟩
  · exact absurd (hscoped.known s (by simp)) hs
  · have hcompile : c.compileProgram ⟨before ++ s :: after⟩ = .error ⟨pre.length, fault⟩ := by
      rw [hsplit]
      exact c.compileProgram_of_offends hpre hoffends
    -- the statement it stops at cannot be a later one, for then `s` would be in scope
    rcases List.append_eq_append_iff.1 hsplit with ⟨between, rfl, hrest⟩ | ⟨between, rfl, hrest⟩
    · cases between with
      | nil =>
        cases hrest
        rw [List.append_nil] at hoffends hcompile
        exact .inr ⟨fault, hoffends, hcompile⟩
      | cons r between =>
        cases hrest
        exact absurd (hpre.known s (by simp)) hs
    · cases between with
      | nil =>
        cases hrest
        rw [List.append_nil] at hcompile ⊢
        exact .inr ⟨fault, hoffends, hcompile⟩
      | cons r between =>
        cases hrest
        obtain ⟨e, rfl⟩ := hoffends.semantic_of_known (hbefore s' (by simp))
        exact .inl ⟨pre.length, by simp, e, hcompile⟩

theorem Compiler.compileProgram_of_holds (c : Compiler) {before : List Stmt} {s : Stmt}
    {found : Printer.Fault} (after : List Stmt) (hbefore : ∀ r ∈ before, r.Known)
    (hs : s.Holds found) :
    ∃ j ≤ before.length, ∃ fault,
      c.compileProgram ⟨before ++ s :: after⟩ = .error ⟨j, fault⟩ ∧
      ((j < before.length ∨ ∃ x, s.Commits before (.redeclared x)) → ∃ e, fault = .semantic e) ∧
      (¬(j < before.length ∨ ∃ x, s.Commits before (.redeclared x)) →
        j = before.length ∧ s.ReportedAlike found.toError fault.toError) := by
  rcases c.compileProgram_of_not_known after hbefore (Stmt.not_known_iff.2 ⟨found, hs⟩) with
    ⟨j, hj, e, hc⟩ | ⟨fault, hoffends, hc⟩
  · exact ⟨j, Nat.le_of_lt hj, _, hc, fun _ => ⟨e, rfl⟩, fun hno => absurd (.inl hj) hno⟩
  · obtain ⟨hsemantic, halike⟩ := hoffends.of_holds hs
    refine ⟨before.length, Nat.le_refl _, fault, hc, ?_, fun hno => ⟨rfl, ?_⟩⟩
    · rintro (hlt | hre)
      · exact absurd hlt (Nat.lt_irrefl _)
      · exact hsemantic hre
    · exact halike fun hre => hno (.inr hre)

/-- Writing and compiling a program know the same nodes. Writing fails exactly at the first
statement that is foreign or holds a foreign expression, and never for a program that compiles.
Where it fails, compiling fails at the same statement with a report of the same node, except where
a name is at fault: at an earlier statement, or in the declaration of that statement itself. -/
theorem writing_and_compiling_know_same_nodes (c : Compiler) (text : Bytes) (p : Program) :
    ((∃ e, formatOnto text (.program p) = .error e) ↔ ∃ s ∈ p.stmts, ¬s.Known) ∧
    (∀ i, (∃ e, formatOnto text (.program p) =
        .error (.wrap (utf8 "stmt " ++ Bytes.ofNat i) e)) ↔
      IsLeast {k | ∃ s, p.stmts[k]? = some s ∧ ¬s.Known} i) ∧
    ((∃ o, c.compileProgram p = .ok o) → ∃ written, formatOnto text (.program p) = .ok written) ∧
    ∀ i e, formatOnto text (.program p) = .error (.wrap (utf8 "stmt " ++ Bytes.ofNat i) e) →
      ∃ before s after, p.stmts = before ++ s :: after ∧ before.length = i ∧
        ∃ j ≤ i, ∃ e', (c.compileProgram p).mapError Failure.toError =
            .error (.wrap (utf8 "stmt " ++ Bytes.ofNat j) e') ∧
          ((j < i ∨ ∃ x, s.Commits before (.redeclared x)) → ∃ se, e' = .semantic se) ∧
          (¬(j < i ∨ ∃ x, s.Commits before (.redeclared x)) → j = i ∧ s.ReportedAlike e e') := by
  refine ⟨exists_formatOnto_program_eq_error_iff,
    fun i => exists_formatOnto_program_eq_error_at_iff, ?_, fun i e h => ?_⟩
  · rintro ⟨o, ho⟩
    have hknown := (Compiler.compileProgram_eq_ok_iff.1 ho).1.known
    cases h : formatOnto text (.program p) with
    | ok written => exact ⟨written, rfl⟩
    | error e =>
      obtain ⟨s, hs, hunknown⟩ := exists_formatOnto_program_eq_error_iff.1 ⟨e, h⟩
      exact absurd (hknown s hs) hunknown
  · obtain ⟨before, s, after, found, hsplit, rfl, hbefore, hholds, rfl⟩ :=
      formatOnto_program_eq_error_at_iff.1 h
    obtain ⟨j, hj, fault, hc, hsemantic, halike⟩ := c.compileProgram_of_holds after hbefore hholds
    rw [← hsplit] at hc
    refine ⟨before, s, after, hsplit, rfl, j, hj, fault.toError, by rw [hc]; rfl, ?_, halike⟩
    intro hname
    obtain ⟨se, rfl⟩ := hsemantic hname
    exact ⟨se, rfl⟩

theorem second_declaration_hides_empty_value :
    (∃ o, Compiler.default.compileProgram
        ⟨[.declare ⟨0, 10⟩ ⟨⟨4, 5⟩, utf8 "a"⟩ (.var ⟨⟨8, 9⟩, utf8 "a"⟩)]⟩ = .ok o) ∧
    (∃ written, formatOnto (utf8 "finu(1);")
        (.program ⟨[.declare ⟨0, 10⟩ ⟨⟨4, 5⟩, utf8 "a"⟩ (.var ⟨⟨8, 9⟩, utf8 "a"⟩)]⟩) =
          .ok written) ∧
    (∃ p : Program, p.stmts = [.declare ⟨0, 10⟩ ⟨⟨4, 5⟩, utf8 "a"⟩ (.var ⟨⟨8, 9⟩, utf8 "a"⟩),
        .exit ⟨10, 18⟩ (.foreign .nameReference)] ∧
      ∃ e e', formatOnto [] (.program p) = .error (.wrap (utf8 "stmt " ++ Bytes.ofNat 1) e) ∧
        (Compiler.default.compileProgram p).mapError Failure.toError =
          .error (.wrap (utf8 "stmt " ++ Bytes.ofNat 1) e') ∧
        e.message = utf8 "expr: unsupported expr: *ast.Ident" ∧
        e'.message = utf8 "unsupported expression: *ast.Ident") ∧
    ∃ p : Program, p.stmts = [.declare ⟨0, 10⟩ ⟨⟨4, 5⟩, utf8 "a"⟩ (.var ⟨⟨8, 9⟩, utf8 "a"⟩),
        .declare ⟨10, 20⟩ ⟨⟨14, 15⟩, utf8 "a"⟩ (.foreign .absent)] ∧
      (∃ e, formatOnto [] (.program p) = .error (.wrap (utf8 "stmt " ++ Bytes.ofNat 1) e) ∧
        e.message = utf8 "expr: unsupported expr: <nil>") ∧
      ∃ j ≤ 1, ∃ se, (Compiler.default.compileProgram p).mapError Failure.toError =
        .error (.wrap (utf8 "stmt " ++ Bytes.ofNat j) (.semantic se)) := by
  have hreference : formatOnto [] (.program
      ⟨[.declare ⟨0, 10⟩ ⟨⟨4, 5⟩, utf8 "a"⟩ (.var ⟨⟨8, 9⟩, utf8 "a"⟩),
        .exit ⟨10, 18⟩ (.foreign .nameReference)]⟩) =
      .error (.wrap (utf8 "stmt " ++ Bytes.ofNat 1)
        (Printer.Fault.expr .nameReference).toError) := rfl
  have hempty : formatOnto [] (.program
      ⟨[.declare ⟨0, 10⟩ ⟨⟨4, 5⟩, utf8 "a"⟩ (.var ⟨⟨8, 9⟩, utf8 "a"⟩),
        .declare ⟨10, 20⟩ ⟨⟨14, 15⟩, utf8 "a"⟩ (.foreign .absent)]⟩) =
      .error (.wrap (utf8 "stmt " ++ Bytes.ofNat 1) (Printer.Fault.expr .absent).toError) := rfl
  refine ⟨⟨_, rfl⟩, ?_, ⟨⟨_⟩, rfl, ?_⟩, ⟨_⟩, rfl, ⟨_, hempty, by decide +kernel⟩, ?_⟩
  · exact (writing_and_compiling_know_same_nodes Compiler.default _ _).2.2.1 ⟨_, rfl⟩
  · obtain ⟨before, s, after, hsplit, hlength, j, -, e', hc, -, halike⟩ :=
      (writing_and_compiling_know_same_nodes Compiler.default [] _).2.2.2 1 _ hreference
    change [_] ++ [_] = before ++ s :: after at hsplit
    obtain ⟨rfl, hrest⟩ := List.append_inj hsplit hlength.symm
    cases hrest
    have hj : j = 1 := by
      have hfound := Except.error.inj (hc.symm.trans rfl)
      exact Bytes.ofNat_inj (List.append_cancel_left (Error.wrap.inj hfound).1)
    subst hj
    obtain ⟨-, hreported⟩ := halike <| by
      rintro (hlt | ⟨x, hx⟩)
      · exact absurd hlt (Nat.lt_irrefl 1)
      · cases hx with
        | redeclared hs => cases hs
    generalize (Printer.Fault.expr .nameReference).toError = e at hreference hreported
    cases hreported with
    | stmt hnode => cases hnode
    | expr hnode =>
      cases hnode
      exact ⟨_, _, hreference, hc, by decide +kernel, by decide +kernel⟩
  · obtain ⟨before, s, after, hsplit, hlength, j, hj, e', hc, hsemantic, -⟩ :=
      (writing_and_compiling_know_same_nodes Compiler.default [] _).2.2.2 1 _ hempty
    change [_] ++ [_] = before ++ s :: after at hsplit
    obtain ⟨rfl, hrest⟩ := List.append_inj hsplit hlength.symm
    cases hrest
    have hearlier : ∃ r ∈ [Stmt.declare ⟨0, 10⟩ ⟨⟨4, 5⟩, utf8 "a"⟩ (.var ⟨⟨8, 9⟩, utf8 "a"⟩)],
        r.Declares (utf8 "a") := ⟨_, .head _, _, _, _, rfl, rfl⟩
    obtain ⟨se, rfl⟩ := hsemantic (.inr ⟨⟨⟨14, 15⟩, utf8 "a"⟩, .redeclared rfl hearlier⟩)
    exact ⟨j, hj, se, hc⟩

end LetExit
