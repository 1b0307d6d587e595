import Mathlib.Order.Bounds.Defs
import LetExit.Proofs.Scoping

/-!
# The first offence

A statement offends by what it is, by the name it declares, or by the
expression it holds, and the statements before it are all that has to be known
to tell. Several things can be wrong with one statement, and they are ranked:
the least of them is what the statement is blamed for. A program compiles
exactly if none of its statements offends, and otherwise the first that does
is reported, whatever comes behind it.
-/

set_option autoImplicit false

namespace LetExit

open Codegen

inductive Offence where
  | foreignStmt (node : Foreign)
  | redeclared (x : Name)
  | foreignExpr (node : Foreign)
  | undeclared (x : Name)
  deriving DecidableEq, Repr

namespace Offence

def rank : Offence → Nat
  | .foreignStmt _ => 0
  | .redeclared _ => 1
  | .foreignExpr _ => 2
  | .undeclared _ => 3

def error : Offence → Error
  | .foreignStmt node => .plain (utf8 "unsupported statement: " ++ node.typeName)
  | .redeclared x => .semantic ⟨x.span.pos, x.text, utf8 "identifier already used"⟩
  | .foreignExpr node => .plain (utf8 "unsupported expression: " ++ node.typeName)
  | .undeclared x => .semantic ⟨x.span.pos, x.text, utf8 "undeclared identifier"⟩

def fault : Offence → Fault
  | .foreignStmt node => .foreignStmt node
  | .redeclared x => .semantic ⟨x.span.pos, x.text, alreadyUsed⟩
  | .foreignExpr node => .foreignExpr node
  | .undeclared x => .semantic ⟨x.span.pos, x.text, Codegen.undeclared⟩

theorem toError_fault (o : Offence) : o.fault.toError = o.error := by
  cases o <;> rfl

end Offence

def Stmt.Declares (s : Stmt) (name : Bytes) : Prop :=
  ∃ span x value, s = .declare span x value ∧ x.text = name

def Stmt.expr? : Stmt → Option Expr
  | .declare _ _ value => some value
  | .exit _ status => some status
  | .foreign _ => none

/-- The offence is found in a statement behind the statements `before`. -/
inductive Stmt.Commits (before : List Stmt) (s : Stmt) : Offence → Prop where
  | foreignStmt {node : Foreign} (h : s = .foreign node) : Commits before s (.foreignStmt node)
  | redeclared {span : Span} {x : Name} {value : Expr} (h : s = .declare span x value)
      (hearlier : ∃ r ∈ before, r.Declares x.text) : Commits before s (.redeclared x)
  | foreignExpr {node : Foreign} (h : s.expr? = some (.foreign node)) :
      Commits before s (.foreignExpr node)
  | undeclared {x : Name} (h : s.expr? = some (.var x))
      (hearlier : ∀ r ∈ before, ¬r.Declares x.text) (hself : ¬s.Declares x.text) :
      Commits before s (.undeclared x)

/-- The statement is blamed for the first of its offences. -/
def Stmt.BlamedFor (before : List Stmt) (s : Stmt) (o : Offence) : Prop :=
  s.Commits before o ∧ ∀ other, s.Commits before other → o.rank ≤ other.rank

def OffendsAt (ss : List Stmt) (i : Nat) : Prop :=
  ∃ before s after o, ss = before ++ s :: after ∧ before.length = i ∧ s.Commits before o

theorem Stmt.declares_declare {span : Span} {x : Name} {value : Expr} {name : Bytes} :
    (Stmt.declare span x value).Declares name ↔ x.text = name := by
  constructor
  · rintro ⟨_, _, _, h, rfl⟩
    cases h
    rfl
  · intro h
    exact ⟨span, x, value, rfl, h⟩

theorem exists_declares_iff {ss : List Stmt} {name : Bytes} :
    (∃ r ∈ ss, r.Declares name) ↔ name ∈ declared ss := by
  induction ss with
  | nil => simp [declared]
  | cons s ss ih =>
    rw [List.exists_mem_cons_iff, ih, ← List.singleton_append, declared_append, List.mem_append]
    apply or_congr_left
    cases s with
    | declare span x value => simp [Stmt.declares_declare, declared, eq_comm]
    | exit span status => simp [Stmt.Declares, declared]
    | foreign node => simp [Stmt.Declares, declared]

theorem forall_not_declares_iff {ss : List Stmt} {name : Bytes} :
    (∀ r ∈ ss, ¬r.Declares name) ↔ name ∉ declared ss := by
  rw [← exists_declares_iff]
  simp

/-! One statement: the offence it is blamed for is the fault that the generator finds. -/

section Statement

variable {before : List Stmt} {s : Stmt}

theorem Stmt.Scoped.not_commits (h : s.Scoped (declared before)) (o : Offence) :
    ¬s.Commits before o := by
  have hexpr : ∀ e, s.expr? = some e → e.Known := by
    intro e he
    cases s with
    | declare span x value => cases he; exact (Expr.scoped_iff.1 h.2).1
    | exit span status => cases he; exact (Expr.scoped_iff.1 h).1
    | foreign node => cases he
  intro hcommits
  cases hcommits with
  | foreignStmt hs => rw [hs] at h; exact h
  | redeclared hs hearlier =>
    rw [hs] at h
    exact h.1 (exists_declares_iff.1 hearlier)
  | foreignExpr he => exact hexpr _ he
  | @undeclared x he hearlier hself =>
    rw [forall_not_declares_iff] at hearlier
    cases s with
    | foreign node => cases he
    | exit span status => cases he; exact hearlier h
    | declare span y value =>
      cases he
      rw [Stmt.declares_declare] at hself
      rcases List.mem_append.1 h.2 with hx | hx
      · exact hearlier hx
      · exact hself (List.mem_singleton.1 hx).symm

/-- An offence of the expression comes first if the statement is known and declares no name
again. -/
theorem Stmt.blamedFor_of_expr {o : Offence} (h : s.Commits before o) (ho : 2 ≤ o.rank)
    (hknown : ∀ node, s ≠ .foreign node)
    (hnew : ∀ span x value, s = .declare span x value → x.text ∉ declared before) :
    s.BlamedFor before o := by
  refine ⟨h, fun other hother => ?_⟩
  cases hother with
  | foreignStmt hs => exact absurd hs (hknown _)
  | redeclared hs hearlier => exact absurd (exists_declares_iff.1 hearlier) (hnew _ _ _ hs)
  | foreignExpr he =>
    cases h with
    | foreignExpr => exact Nat.le_refl _
    | undeclared hvar => rw [he] at hvar; cases hvar
    | foreignStmt => simp [Offence.rank] at ho
    | redeclared => simp [Offence.rank] at ho
  | undeclared => cases o <;> simp [Offence.rank]

theorem Expr.Offends.commits {names : List Bytes} {e : Expr} {fault : Fault}
    (h : e.Offends names fault) (hs : s.expr? = some e)
    (hnames : ∀ name, name ∉ names → name ∉ declared before ∧ ¬s.Declares name) :
    ∃ o, s.Commits before o ∧ 2 ≤ o.rank ∧ o.fault = fault := by
  cases h with
  | @foreign node => exact ⟨.foreignExpr node, .foreignExpr hs, Nat.le_refl _, rfl⟩
  | @undeclared x hx =>
    obtain ⟨hearlier, hself⟩ := hnames x.text hx
    exact ⟨.undeclared x, .undeclared hs (forall_not_declares_iff.2 hearlier) hself,
      Nat.le_succ _, rfl⟩

theorem Stmt.Offends.blamedFor {fault : Fault} (h : s.Offends (declared before) fault) :
    ∃ o, s.BlamedFor before o ∧ o.fault = fault := by
  cases h with
  | @foreign node =>
    exact ⟨.foreignStmt node, ⟨.foreignStmt rfl, fun _ _ => Nat.zero_le _⟩, rfl⟩
  | @redeclared span x value h =>
    refine ⟨.redeclared x, ⟨.redeclared rfl (exists_declares_iff.2 h), fun other hother => ?_⟩, rfl⟩
    cases hother with
    | foreignStmt hs => cases hs
    | redeclared => exact Nat.le_refl _
    | foreignExpr => simp [Offence.rank]
    | undeclared => simp [Offence.rank]
  | @value span x value fault hnew hvalue =>
    have hnames : ∀ name, name ∉ declared before ++ [x.text] →
        name ∉ declared before ∧ ¬(Stmt.declare span x value).Declares name := by
      intro name hname
      rw [List.mem_append, List.mem_singleton, not_or] at hname
      exact ⟨hname.1, fun h => hname.2 (Stmt.declares_declare.1 h).symm⟩
    obtain ⟨o, ho, hrank, rfl⟩ := hvalue.commits rfl hnames
    refine ⟨o, Stmt.blamedFor_of_expr ho hrank (by simp) fun _ y _ hs => ?_, rfl⟩
    cases hs
    exact hnew
  | @status span status fault hstatus =>
    obtain ⟨o, ho, hrank, rfl⟩ := hstatus.commits (s := .exit span status) rfl fun name hname =>
      ⟨hname, by simp [Stmt.Declares]⟩
    exact ⟨o, Stmt.blamedFor_of_expr ho hrank (by simp) (by simp), rfl⟩

theorem Stmt.BlamedFor.unique {o o' : Offence} (h : s.BlamedFor before o)
    (h' : s.BlamedFor before o') : o = o' := by
  have hrank : o.rank = o'.rank := Nat.le_antisymm (h.2 o' h'.1) (h'.2 o h.1)
  obtain ⟨hcommits, -⟩ := h
  obtain ⟨hcommits', -⟩ := h'
  cases hcommits with
  | foreignStmt hs =>
    cases hcommits' with
    | foreignStmt hs' => rw [hs] at hs'; cases hs'; rfl
    | _ => simp [Offence.rank] at hrank
  | redeclared hs =>
    cases hcommits' with
    | redeclared hs' => rw [hs] at hs'; cases hs'; rfl
    | _ => simp [Offence.rank] at hrank
  | foreignExpr he =>
    cases hcommits' with
    | foreignExpr he' => rw [he] at he'; cases he'; rfl
    | _ => simp [Offence.rank] at hrank
  | undeclared he =>
    cases hcommits' with
    | undeclared he' => rw [he] at he'; cases he'; rfl
    | _ => simp [Offence.rank] at hrank

end Statement

/-! All statements. -/

theorem Scoped.scoped_at {before pre post : List Stmt} {s : Stmt}
    (h : Scoped before (pre ++ s :: post)) : s.Scoped (declared (before ++ pre)) := by
  induction pre generalizing before with
  | nil => rw [List.append_nil]; exact h.1
  | cons r pre ih => simpa using ih h.2

theorem Scoped.not_offendsAt {ss : List Stmt} (h : Scoped [] ss) (i : Nat) : ¬OffendsAt ss i := by
  rintro ⟨before, s, after, o, rfl, -, ho⟩
  exact h.scoped_at.not_commits o ho

theorem Scoped.not_offendsAt_append {pre : List Stmt} (h : Scoped [] pre) (rest : List Stmt)
    {j : Nat} (hj : j < pre.length) : ¬OffendsAt (pre ++ rest) j := by
  rintro ⟨before, s, after, o, hsplit, rfl, ho⟩
  -- the statement lies in the part that is in scope
  have hprefix : before ++ [s] <+: pre ++ rest := ⟨after, by rw [hsplit]; simp⟩
  obtain ⟨between, rfl⟩ : before ++ [s] <+: pre := by
    apply List.prefix_of_prefix_length_le hprefix (List.prefix_append pre rest)
    rw [List.length_append]
    exact hj
  rw [List.append_assoc] at h
  exact h.scoped_at.not_commits o ho

/-- A program compiles exactly if no statement offends. Otherwise there is no compiled program, and
the error is that of the first statement that offends, for the first of its offences, with the
number of the statement in front. -/
theorem first_offence_is_reported (c : Compiler) (p : Program) :
    ((∃ e, c.compileProgram p = .error e) ↔ ∃ i, OffendsAt p.stmts i) ∧
    ∀ i, IsLeast {j | OffendsAt p.stmts j} i →
      ∃ before s after o, p.stmts = before ++ s :: after ∧ before.length = i ∧
        s.BlamedFor before o ∧ (∀ other, s.BlamedFor before other → other = o) ∧
        (c.compileProgram p).mapError Failure.toError =
          .error (.wrap (utf8 "stmt " ++ Bytes.ofNat i) o.error) := by
  obtain ⟨stmts⟩ := p
  rcases scoped_or_first_offends [] stmts with hscoped | ⟨before, s, after, fault, rfl, hpre, hs⟩
  · have hnone := hscoped.not_offendsAt
    refine ⟨iff_of_false ?_ (fun ⟨i, hi⟩ => hnone i hi), fun i hi => absurd hi.1 (hnone i)⟩
    rintro ⟨e, he⟩
    rw [c.compileProgram_of_scoped hscoped] at he
    cases he
  · have herror : c.compileProgram ⟨before ++ s :: after⟩ = _ :=
      c.compileProgram_of_offends hpre hs
    obtain ⟨o, hblamed, rfl⟩ := hs.blamedFor
    have hoffends : OffendsAt (before ++ s :: after) before.length :=
      ⟨before, s, after, o, rfl, rfl, hblamed.1⟩
    refine ⟨iff_of_true ⟨_, herror⟩ ⟨_, hoffends⟩, fun i hi => ?_⟩
    obtain rfl : before.length = i := by
      apply Nat.le_antisymm
      · by_contra hlt
        exact hpre.not_offendsAt_append _ (by omega) hi.1
      · exact hi.2 hoffends
    refine ⟨before, s, after, o, rfl, rfl, hblamed, fun other hother => hother.unique hblamed, ?_⟩
    rw [herror]
    simp only [Except.mapError, Failure.toError, o.toError_fault]

theorem redeclaration_reported_before_empty_value :
    ∃ p : Program, p.stmts = [
        .declare ⟨0, 10⟩ ⟨⟨4, 5⟩, utf8 "a"⟩ (.var ⟨⟨8, 9⟩, utf8 "a"⟩),
        .exit ⟨10, 18⟩ (.var ⟨⟨15, 16⟩, utf8 "a"⟩),
        .declare ⟨18, 28⟩ ⟨⟨22, 23⟩, utf8 "a"⟩ (.foreign .absent),
        .foreign .letReference] ∧
      IsLeast {j | OffendsAt p.stmts j} 2 ∧
      ∃ e, (Compiler.default.compileProgram p).mapError Failure.toError = .error e ∧
        e.message = utf8 "stmt 2: identifier already used: a" ∧ e.position? = some 22 := by
  refine ⟨⟨_⟩, rfl, ?_⟩
  have hredeclared : Stmt.Offends (declared [
      .declare ⟨0, 10⟩ ⟨⟨4, 5⟩, utf8 "a"⟩ (.var ⟨⟨8, 9⟩, utf8 "a"⟩),
      .exit ⟨10, 18⟩ (.var ⟨⟨15, 16⟩, utf8 "a"⟩)])
      (.declare ⟨18, 28⟩ ⟨⟨22, 23⟩, utf8 "a"⟩ (.foreign .absent))
      (.semantic ⟨22, utf8 "a", alreadyUsed⟩) := .redeclared (.head _)
  obtain ⟨o, hblamed, hfault⟩ := hredeclared.blamedFor
  refine (and_iff_left_of_imp fun hleast => ?_).2 ⟨?_, fun j hj => ?_⟩
  · obtain ⟨before, s, after, o', hsplit, hlength, -, hunique, herror⟩ :=
      (first_offence_is_reported Compiler.default _).2 2 hleast
    change [_, _] ++ [_, _] = before ++ s :: after at hsplit
    obtain ⟨rfl, hrest⟩ := List.append_inj hsplit hlength.symm
    cases hrest
    cases hunique o hblamed
    refine ⟨_, herror, ?_, ?_⟩
    · rw [← o.toError_fault, hfault]
      decide +kernel
    · rw [← o.toError_fault, hfault]
      rfl
  · exact ⟨[_, _], _, [_], o, rfl, rfl, hblamed.1⟩
  · by_contra hlt
    have hscoped : Scoped [] [
        .declare ⟨0, 10⟩ ⟨⟨4, 5⟩, utf8 "a"⟩ (.var ⟨⟨8, 9⟩, utf8 "a"⟩),
        .exit ⟨10, 18⟩ (.var ⟨⟨15, 16⟩, utf8 "a"⟩)] :=
      ⟨⟨List.not_mem_nil, .head _⟩, .head _, trivial⟩
    exact hscoped.not_offendsAt_append _ (Nat.lt_of_not_le hlt) hj

end LetExit
