import Mathlib.Data.List.Basic
import Mathlib.Data.List.Induction
import Mathlib.Data.List.Pairwise
import LetExit.Assembly.Codegen

/-!
# The generated code in closed form

The generator's state after some statements depends only on the names they
declare: a declaration pushes one word, an exit pops the word it has pushed,
so that the depth behind every statement is the number of declared names and
the slot of a name is its ordinal among them. So the code of a program can be written down from the list of all
its declared names, and code is generated exactly if every name is declared
once and read only where it has been declared.
-/

set_option autoImplicit false

namespace LetExit

def Stmt.declared? : Stmt → Option Name
  | .declare _ name _ => some name
  | _ => none

def lets (ss : List Stmt) : List Name := ss.filterMap Stmt.declared?

def declared (ss : List Stmt) : List Bytes := (lets ss).map Name.text

def Stmt.isExit : Stmt → Bool
  | .exit _ _ => true
  | _ => false

def varsFrom (slot : Nat) : List Name → List Var
  | [] => []
  | x :: xs => ⟨x.text, slot, x.span.pos⟩ :: varsFrom (slot + 1) xs

@[simp]
theorem lets_nil : lets [] = [] := rfl

@[simp]
theorem lets_declare (span : Span) (x : Name) (value : Expr) (rest : List Stmt) :
    lets (.declare span x value :: rest) = x :: lets rest := rfl

@[simp]
theorem lets_exit (span : Span) (status : Expr) (rest : List Stmt) :
    lets (.exit span status :: rest) = lets rest := rfl

@[simp]
theorem lets_foreign (node : Foreign) (rest : List Stmt) :
    lets (.foreign node :: rest) = lets rest := rfl

theorem lets_append (ss rest : List Stmt) : lets (ss ++ rest) = lets ss ++ lets rest := by
  simp [lets]

theorem declared_append (ss rest : List Stmt) :
    declared (ss ++ rest) = declared ss ++ declared rest := by
  simp [declared, lets_append]

theorem length_declared (ss : List Stmt) : (declared ss).length = (lets ss).length := by
  simp [declared]

theorem idxOf_declared {before rest : List Stmt} {x : Name} (span : Span) (value : Expr)
    (hnew : x.text ∉ declared before) :
    (declared (before ++ .declare span x value :: rest)).idxOf x.text =
      (declared before).length := by
  rw [declared_append, List.idxOf_append_of_notMem hnew]
  simp [declared]

theorem varsFrom_append (slot : Nat) (xs ys : List Name) :
    varsFrom slot (xs ++ ys) = varsFrom slot xs ++ varsFrom (slot + xs.length) ys := by
  induction xs generalizing slot with
  | nil => rfl
  | cons x xs ih =>
    simp only [List.cons_append, varsFrom, ih, List.length_cons]
    congr 3
    omega

theorem varsFrom_slot_le {slot : Nat} {xs : List Name} {v : Var} (h : v ∈ varsFrom slot xs) :
    (slot : Int) ≤ v.slot := by
  induction xs generalizing slot with
  | nil => simp [varsFrom] at h
  | cons x xs ih =>
    rcases List.mem_cons.1 h with rfl | h
    · exact Int.le_refl _
    · have := ih h; omega

theorem varsFrom_pairwise (slot : Nat) (xs : List Name) :
    (varsFrom slot xs).Pairwise (·.slot < ·.slot) := by
  induction xs generalizing slot with
  | nil => exact .nil
  | cons x xs ih =>
    refine .cons (fun v hv => ?_) (ih _)
    have := varsFrom_slot_le hv
    show (slot : Int) < v.slot
    omega

theorem Var.eq_of_slot_eq {vars : List Var} (hd : vars.Pairwise (·.slot ≠ ·.slot)) {v w : Var}
    (hv : v ∈ vars) (hw : w ∈ vars) (h : v.slot = w.slot) : v = w := by
  have : Std.Symm fun v w : Var => v.slot ≠ w.slot := ⟨fun _ _ => Ne.symm⟩
  by_contra hne
  exact hd.forall hv hw hne h

theorem Var.sort_eq_of_perm {vars others : List Var} (h : vars.Perm others)
    (hd : others.Pairwise (·.slot ≠ ·.slot)) : Var.sort vars = Var.sort others := by
  have hperm := (Var.sort_perm vars).trans (h.trans (Var.sort_perm others).symm)
  refine hperm.eq_of_pairwise ?_ (Var.sort_pairwise _) (Var.sort_pairwise _)
  intro v w hv hw hvw hwv
  have hv' := h.mem_iff.1 ((Var.sort_perm vars).mem_iff.1 hv)
  have hw' := (Var.sort_perm others).mem_iff.1 hw
  exact Var.eq_of_slot_eq hd hv' hw' (Int.le_antisymm hvw hwv)

theorem varsFrom_slots_ne (slot : Nat) (xs : List Name) :
    (varsFrom slot xs).Pairwise (·.slot ≠ ·.slot) :=
  (varsFrom_pairwise slot xs).imp Int.ne_of_lt

theorem sort_varsFrom (slot : Nat) (xs : List Name) :
    Var.sort (varsFrom slot xs) = varsFrom slot xs := by
  apply List.mergeSort_of_pairwise
  exact (varsFrom_pairwise slot xs).imp fun h => by simpa using Int.le_of_lt h

theorem sort_reverse_varsFrom (xs : List Name) :
    Var.sort (varsFrom 0 xs).reverse = varsFrom 0 xs := by
  rw [Var.sort_eq_of_perm (List.reverse_perm _) (varsFrom_slots_ne 0 xs), sort_varsFrom]

def Expr.Scoped (names : List Bytes) : Expr → Prop
  | .literal _ _ => True
  | .var x => x.text ∈ names
  | .foreign _ => False

/-- A statement declares a new name only, and reads names declared before or by itself. -/
def Stmt.Scoped (names : List Bytes) : Stmt → Prop
  | .declare _ x value => x.text ∉ names ∧ value.Scoped (names ++ [x.text])
  | .exit _ status => status.Scoped names
  | .foreign _ => False

/-- Statements keep to the rules of declaration when they follow the statements `before`. -/
def Scoped (before : List Stmt) : List Stmt → Prop
  | [] => True
  | s :: rest => s.Scoped (declared before) ∧ Scoped (before ++ [s]) rest

open Codegen in
inductive Expr.Offends (names : List Bytes) : Expr → Fault → Prop where
  | undeclared {x : Name} (h : x.text ∉ names) :
      Offends names (.var x) (.semantic ⟨x.span.pos, x.text, undeclared⟩)
  | foreign {node : Foreign} : Offends names (.foreign node) (.foreignExpr node)

open Codegen in
/-- What is wrong with a statement that is not in scope: a name declared again comes before
whatever is wrong with its value. -/
inductive Stmt.Offends (names : List Bytes) : Stmt → Fault → Prop where
  | redeclared {span : Span} {x : Name} {value : Expr} (h : x.text ∈ names) :
      Offends names (.declare span x value) (.semantic ⟨x.span.pos, x.text, alreadyUsed⟩)
  | value {span : Span} {x : Name} {value : Expr} {fault : Fault} (h : x.text ∉ names)
      (hvalue : value.Offends (names ++ [x.text]) fault) :
      Offends names (.declare span x value) fault
  | status {span : Span} {status : Expr} {fault : Fault} (hstatus : status.Offends names fault) :
      Offends names (.exit span status) fault
  | foreign {node : Foreign} : Offends names (.foreign node) (.foreignStmt node)

theorem Expr.scoped_or_offends (names : List Bytes) (e : Expr) :
    e.Scoped names ∨ ∃ fault, e.Offends names fault := by
  cases e with
  | literal span digits => exact .inl trivial
  | foreign node => exact .inr ⟨_, .foreign⟩
  | var x =>
    by_cases h : x.text ∈ names
    · exact .inl h
    · exact .inr ⟨_, .undeclared h⟩

theorem Stmt.scoped_or_offends (names : List Bytes) (s : Stmt) :
    s.Scoped names ∨ ∃ fault, s.Offends names fault := by
  cases s with
  | foreign node => exact .inr ⟨_, .foreign⟩
  | exit span status =>
    rcases status.scoped_or_offends names with h | ⟨fault, h⟩
    · exact .inl h
    · exact .inr ⟨fault, .status h⟩
  | declare span x value =>
    by_cases hx : x.text ∈ names
    · exact .inr ⟨_, .redeclared hx⟩
    · rcases value.scoped_or_offends (names ++ [x.text]) with h | ⟨fault, h⟩
      · exact .inl ⟨hx, h⟩
      · exact .inr ⟨fault, .value hx h⟩

theorem scoped_or_first_offends (before ss : List Stmt) :
    Scoped before ss ∨ ∃ pre s post fault, ss = pre ++ s :: post ∧ Scoped before pre ∧
      s.Offends (declared (before ++ pre)) fault := by
  induction ss generalizing before with
  | nil => exact .inl trivial
  | cons s rest ih =>
    rcases s.scoped_or_offends (declared before) with hs | ⟨fault, hs⟩
    · rcases ih (before ++ [s]) with hrest | ⟨pre, s', post, fault, rfl, hpre, hs'⟩
      · exact .inl ⟨hs, hrest⟩
      · exact .inr ⟨s :: pre, s', post, fault, rfl, ⟨hs, hpre⟩, by simpa using hs'⟩
    · exact .inr ⟨[], s, rest, fault, rfl, trivial, by simpa using hs⟩

theorem declared_snoc_nodup {before : List Stmt} {s : Stmt} (hn : (declared before).Nodup)
    (hs : s.Scoped (declared before)) : (declared (before ++ [s])).Nodup := by
  rw [declared_append]
  cases s with
  | declare span x value =>
    refine List.nodup_append.2 ⟨hn, .cons (by simp) .nil, ?_⟩
    intro a ha b hb
    rw [List.mem_singleton.1 hb]
    rintro rfl
    exact hs.1 ha
  | exit span status => simpa [declared] using hn
  | foreign node => exact hs.elim

namespace Codegen

def State.ofLets (xs : List Name) (depth : Int) (exited : Bool) : State :=
  ⟨depth, (varsFrom 0 xs).reverse, exited⟩

/-- The state that statements without fault leave. -/
def State.after (ss : List Stmt) : State :=
  .ofLets (lets ss) (lets ss).length (ss.any Stmt.isExit)

theorem declare_ofLets (xs : List Name) (exited : Bool) (x : Name) :
    (State.ofLets xs xs.length exited).declare x = .ofLets (xs ++ [x]) xs.length exited := by
  simp [State.declare, State.ofLets, varsFrom_append, varsFrom]

theorem find?_ofLets_append (xs : List Name) (x : Name) (depth : Int) (exited : Bool)
    (y : Bytes) : (State.ofLets (xs ++ [x]) depth exited).find? y =
      if x.text = y then some ⟨x.text, xs.length, x.span.pos⟩
      else (State.ofLets xs depth exited).find? y := by
  by_cases h : x.text = y <;>
    simp [State.find?, State.ofLets, varsFrom_append, varsFrom, h]

theorem find?_eq_none_iff {xs : List Name} {depth : Int} {exited : Bool} {y : Bytes} :
    (State.ofLets xs depth exited).find? y = none ↔ y ∉ xs.map Name.text := by
  induction xs using List.reverseRecOn with
  | nil => simp [State.find?, State.ofLets, varsFrom]
  | append_singleton xs x ih =>
    rw [find?_ofLets_append]
    by_cases h : x.text = y
    · simp [h]
    · simp only [h, if_false, ih, List.map_append, List.map_cons, List.map_nil, List.mem_append,
        List.mem_singleton, Ne.symm h, or_false]

/-- The slot of a name is its ordinal among the declared names. -/
theorem find?_slot {xs : List Name} {y : Bytes} (depth : Int) (exited : Bool)
    (hn : (xs.map Name.text).Nodup) (hy : y ∈ xs.map Name.text) :
    ∃ v, (State.ofLets xs depth exited).find? y = some v ∧
      v.slot = (xs.map Name.text).idxOf y := by
  induction xs using List.reverseRecOn with
  | nil => simp at hy
  | append_singleton xs x ih =>
    rw [find?_ofLets_append]
    simp only [List.map_append, List.map_cons, List.map_nil] at hn hy ⊢
    have hx : x.text ∉ xs.map Name.text := by
      rw [List.nodup_append] at hn
      exact fun hmem => hn.2.2 _ hmem x.text (by simp) rfl
    by_cases h : x.text = y
    · subst h
      refine ⟨_, if_pos rfl, ?_⟩
      rw [List.idxOf_append_of_notMem hx]
      simp
    · have hy' : y ∈ xs.map Name.text := by simpa [Ne.symm h] using hy
      rw [if_neg h, List.idxOf_append_of_mem hy']
      exact ih (List.nodup_append.1 hn).1 hy'

/-- The code that pushes an expression at the given depth, where `names` are the names the
program declares. -/
def load (names : List Bytes) (depth : Nat) : Expr → List Instr
  | .literal _ digits => [.mov .rax digits, .push (.reg .rax)]
  | .var x => [.push (.mem .rsp (((depth : Int) - names.idxOf x.text - 1) * wordSize))]
  | .foreign _ => []

def group (t : Target) (names : List Bytes) (depth : Nat) : Stmt → List Instr
  | .declare _ _ value => load names depth value
  | .exit _ status => load names depth status ++ exitCall t (.pop .rdi)
  | .foreign _ => []

def body (t : Target) (names : List Bytes) (depth : Nat) : List Stmt → List Instr
  | [] => []
  | s :: rest => group t names depth s ++ body t names (depth + (lets [s]).length) rest

def ending (t : Target) (exits : Bool) : List Instr :=
  if exits then [] else exitCall t (.mov .rdi (utf8 "0"))

theorem expr_of_scoped {xs : List Name} {names : List Bytes} {e : Expr} (depth : Nat)
    (exited : Bool) (hn : (xs.map Name.text).Nodup) (hnames : xs.map Name.text <+: names)
    (he : e.Scoped (xs.map Name.text)) :
    expr (.ofLets xs depth exited) e = .ok (load names depth e) := by
  cases e with
  | literal span digits => rfl
  | foreign node => exact he.elim
  | var y =>
    obtain ⟨v, hv, hslot⟩ := find?_slot (depth : Int) exited hn he
    obtain ⟨rest, rfl⟩ := hnames
    rw [load, List.idxOf_append_of_mem he, ← hslot, expr, hv]
    rfl

theorem expr_of_offends {xs : List Name} {e : Expr} {fault : Fault} (depth : Int) (exited : Bool)
    (he : e.Offends (xs.map Name.text) fault) :
    expr (.ofLets xs depth exited) e = .error fault := by
  cases he with
  | undeclared h => rw [expr, find?_eq_none_iff.2 h]
  | foreign => rfl

theorem emit_append (s : State) (code more : List Instr) :
    s.emit (code ++ more) = (s.emit code).emit more := by
  simp [State.emit, List.foldl_append]

theorem emit_load {scope : List Bytes} {e : Expr} (s : State) (names : List Bytes) (depth : Nat)
    (he : e.Scoped scope) : s.emit (load names depth e) = { s with depth := s.depth + 1 } := by
  cases e with
  | literal span digits => simp [load, State.emit, growth]
  | var x => rfl
  | foreign node => exact he.elim

theorem emit_exitCall (s : State) (t : Target) (r : Reg) :
    s.emit (exitCall t (.pop r)) = { s with depth := s.depth - 1 } := by
  simp only [exitCall, State.emit, List.foldl_cons, List.foldl_nil, growth, Int.add_zero]
  rfl

theorem after_declare {value : Expr} (before : List Stmt) (span : Span) (x : Name)
    {scope : List Bytes} (names : List Bytes) (depth : Nat) (hvalue : value.Scoped scope) :
    ((State.after before).declare x).emit (load names depth value) =
      State.after (before ++ [.declare span x value]) := by
  rw [emit_load _ names depth hvalue, State.after, declare_ofLets]
  simp [State.after, State.ofLets, lets_append, Stmt.isExit]

-- the pop takes away what the status has pushed
theorem after_exit {status : Expr} (t : Target) (before : List Stmt) (span : Span)
    {scope : List Bytes} (names : List Bytes) (depth : Nat) (hstatus : status.Scoped scope) :
    { (State.after before).emit (load names depth status ++ exitCall t (.pop .rdi)) with
        exited := true } = State.after (before ++ [.exit span status]) := by
  rw [emit_append, emit_load _ names depth hstatus, emit_exitCall]
  simp [State.after, State.ofLets, lets_append, Stmt.isExit]

theorem stmt_of_scoped {t : Target} {before : List Stmt} {s : Stmt} (rest : List Stmt)
    (hn : (declared before).Nodup) (hs : s.Scoped (declared before)) :
    stmt t (.after before) s =
      .ok (group t (declared (before ++ s :: rest)) (declared before).length s,
        .after (before ++ [s])) := by
  have hn' := declared_snoc_nodup hn hs
  rw [length_declared]
  cases s with
  | foreign node => exact hs.elim
  | exit span status =>
    have hpre : declared before <+: declared (before ++ .exit span status :: rest) := by
      rw [declared_append]
      exact List.prefix_append _ _
    have hcode := expr_of_scoped (lets before).length (before.any Stmt.isExit) hn hpre hs
    rw [stmt, show expr (.after before) status = _ from hcode]
    simp only [group, after_exit t before span _ _ hs]
  | declare span x value =>
    have hpre : (lets before ++ [x]).map Name.text <+:
        declared (before ++ .declare span x value :: rest) := by
      rw [← List.singleton_append, ← List.append_assoc, declared_append]
      simp [declared]
    rw [declared_append] at hn'
    have hcode : expr ((State.after before).declare x) value =
        .ok (load (declared (before ++ .declare span x value :: rest)) (lets before).length
          value) := by
      rw [State.after, declare_ofLets]
      exact expr_of_scoped _ _ (by simpa [declared] using hn') hpre
        (by simpa [declared] using hs.2)
    have hfree : ((State.after before).find? x.text).isSome = false := by
      rw [State.after, find?_eq_none_iff.2 hs.1]
      rfl
    rw [stmt, hfree, hcode]
    simp [group, after_declare before span x _ _ hs.2]

theorem stmt_of_offends {t : Target} {before : List Stmt} {s : Stmt} {fault : Fault}
    (hs : s.Offends (declared before) fault) : stmt t (.after before) s = .error fault := by
  cases hs with
  | @redeclared span x value h =>
    have hused : ((State.after before).find? x.text).isSome = true := by
      rw [Option.isSome_iff_ne_none, State.after]
      exact fun hnone => find?_eq_none_iff.1 hnone h
    rw [stmt, hused, if_pos rfl]
  | @value span x value fault h hvalue =>
    have hfree : ((State.after before).find? x.text).isSome = false := by
      rw [State.after, find?_eq_none_iff.2 h]
      rfl
    rw [stmt, hfree, State.after, declare_ofLets,
      expr_of_offends _ _ (by simpa [declared] using hvalue)]
    rfl
  | status hstatus => rw [stmt, State.after, expr_of_offends _ _ hstatus]
  | foreign => rfl

theorem stmtsFrom_of_scoped {t : Target} {before ss : List Stmt} (i : Nat)
    (hn : (declared before).Nodup) (hs : Scoped before ss) :
    stmtsFrom t i (.after before) ss =
      .ok (body t (declared (before ++ ss)) (declared before).length ss, .after (before ++ ss)) := by
  induction ss generalizing before i with
  | nil => simp [stmtsFrom, body]
  | cons s rest ih =>
    have hrest := ih (i + 1) (declared_snoc_nodup hn hs.1) hs.2
    rw [List.append_assoc, List.singleton_append] at hrest
    have hdepth : (declared (before ++ [s])).length =
        (declared before).length + (lets [s]).length := by
      rw [declared_append, List.length_append, length_declared [s]]
    rw [stmtsFrom, stmt_of_scoped rest hn hs.1]
    simp only [hrest, body, hdepth]

theorem stmtsFrom_initial {ss : List Stmt} (t : Target) (h : Scoped [] ss) :
    stmtsFrom t 0 .initial ss = .ok (body t (declared ss) 0 ss, .after ss) := by
  have hn : (declared []).Nodup := List.nodup_nil
  exact stmtsFrom_of_scoped 0 hn h

/-- The first statement that is not in scope is reported, with the number it has. -/
theorem stmtsFrom_of_offends {t : Target} {before ss : List Stmt} {s : Stmt} {fault : Fault}
    (rest : List Stmt) (i : Nat) (hn : (declared before).Nodup) (hss : Scoped before ss)
    (hs : s.Offends (declared (before ++ ss)) fault) :
    stmtsFrom t i (.after before) (ss ++ s :: rest) = .error ⟨i + ss.length, fault⟩ := by
  induction ss generalizing before i with
  | nil =>
    rw [List.append_nil] at hs
    rw [List.nil_append, stmtsFrom, stmt_of_offends hs]
    rfl
  | cons x ss ih =>
    have hrest := ih (i + 1) (declared_snoc_nodup hn hss.1) hss.2 (by simpa using hs)
    rw [List.cons_append, stmtsFrom, stmt_of_scoped (ss ++ s :: rest) hn hss.1]
    simp only [hrest, List.length_cons]
    congr 2
    omega

end Codegen

open Codegen

def Program.code (t : Target) (p : Program) : List Instr :=
  body t (declared p.stmts) 0 p.stmts ++ ending t (p.stmts.any Stmt.isExit)

def Compiler.objectOf (c : Compiler) (p : Program) : Object where
  text := c.target.header ++ listing (p.code c.target) ++ c.target.trailer c.output
  vars := varsFrom 0 (lets p.stmts)
  exited := p.stmts.any Stmt.isExit

theorem Compiler.compileProgram_of_scoped (c : Compiler) {p : Program} (h : Scoped [] p.stmts) :
    c.compileProgram p = .ok (c.objectOf p) := by
  rw [Compiler.compileProgram, stmtsFrom_initial c.target h]
  simp only [State.after, State.ofLets, sort_reverse_varsFrom]
  rfl

theorem Compiler.compileProgram_of_offends (c : Compiler) {pre post : List Stmt} {s : Stmt}
    {fault : Fault} (hpre : Scoped [] pre) (hs : s.Offends (declared pre) fault) :
    c.compileProgram ⟨pre ++ s :: post⟩ = .error ⟨pre.length, fault⟩ := by
  have hn : (declared []).Nodup := List.nodup_nil
  rw [Compiler.compileProgram, show State.initial = .after [] from rfl,
    stmtsFrom_of_offends post 0 hn hpre hs, Nat.zero_add]

/-- A program compiles exactly if it is in scope, and its object is the closed form. -/
theorem Compiler.compileProgram_eq_ok_iff {c : Compiler} {p : Program} {o : Object} :
    c.compileProgram p = .ok o ↔ Scoped [] p.stmts ∧ o = c.objectOf p := by
  constructor
  · intro h
    obtain ⟨stmts⟩ := p
    rcases scoped_or_first_offends [] stmts with hs | ⟨pre, s, post, fault, rfl, hpre, hs⟩
    · rw [c.compileProgram_of_scoped hs] at h
      cases h
      exact ⟨hs, rfl⟩
    · rw [c.compileProgram_of_offends hpre hs] at h
      cases h
  · rintro ⟨hs, rfl⟩
    exact c.compileProgram_of_scoped hs

theorem Compiler.compileProgram_eq_error {c : Compiler} {p : Program} {e : Failure}
    (h : c.compileProgram p = .error e) :
    ∃ pre s post, p.stmts = pre ++ s :: post ∧ Scoped [] pre ∧
      s.Offends (declared pre) e.fault ∧ e.index = pre.length := by
  obtain ⟨stmts⟩ := p
  rcases scoped_or_first_offends [] stmts with hs | ⟨pre, s, post, fault, rfl, hpre, hs⟩
  · rw [c.compileProgram_of_scoped hs] at h
    cases h
  · rw [c.compileProgram_of_offends hpre hs] at h
    cases h
    exact ⟨pre, s, post, rfl, hpre, hs, rfl⟩

end LetExit
