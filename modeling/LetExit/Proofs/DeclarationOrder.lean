import LetExit.Proofs.Scoping

/-!
# Variables in the order of their declarations

The bindings of a program come out of a map in no particular order and are put
in order by a queue, which gives up a variable with a least slot as long as
there is one. Of the queue nothing is known but that. The slot of a variable
is what the pushes and pops of the code in front of it leave on the stack, and
that is the number of declarations there. Since slots are distinct, neither
the queue nor the order in which the bindings come has a choice, and what
comes out is one variable for each declaration, in the order of the text.
-/

set_option autoImplicit false

namespace LetExit

/-- A queue that is asked for least elements only: `pop?` fails when nothing is left, and else
gives up an element that none of the others is less than. -/
structure MinQueue (α : Type) (less : α → α → Bool) where
  Queue : Type
  data : Queue → List α
  empty : Queue
  push : Queue → α → Queue
  pop? : Queue → Option (α × Queue)
  data_empty : data empty = []
  data_push : ∀ q a, (data (push q a)).Perm (a :: data q)
  data_of_none : ∀ q, pop? q = none → data q = []
  data_of_some : ∀ q a q', pop? q = some (a, q') →
    (data q).Perm (a :: data q') ∧ ∀ b ∈ data q', less b a = false

namespace MinQueue

variable {α : Type} {less : α → α → Bool} (H : MinQueue α less)

def drain (q : H.Queue) : List α :=
  match _h : H.pop? q with
  | none => []
  | some (a, q') => a :: drain q'
termination_by (H.data q).length
decreasing_by
  rw [(H.data_of_some q a q' _h).1.length_eq]
  exact Nat.lt_succ_self _

def sort (order : List α) : List α := H.drain (order.foldl H.push H.empty)

theorem data_foldl_push (order : List α) (q : H.Queue) :
    (H.data (order.foldl H.push q)).Perm (order ++ H.data q) := by
  induction order generalizing q with
  | nil => exact .refl _
  | cons a order ih =>
    apply (ih (H.push q a)).trans
    apply ((H.data_push q a).append_left order).trans
    exact List.perm_middle

theorem drain_perm (q : H.Queue) : (H.drain q).Perm (H.data q) := by
  fun_induction drain H q with
  | case1 q h => rw [H.data_of_none q h]
  | case2 q a q' h ih => exact (ih.cons a).trans (H.data_of_some q a q' h).1.symm

theorem drain_pairwise (q : H.Queue) : (H.drain q).Pairwise fun a b => less b a = false := by
  fun_induction drain H q with
  | case1 q h => exact .nil
  | case2 q a q' h ih =>
    refine .cons (fun b hb => ?_) ih
    exact (H.data_of_some q a q' h).2 b ((H.drain_perm q').mem_iff.1 hb)

theorem sort_perm (order : List α) : (H.sort order).Perm order := by
  have hdata := H.data_foldl_push order H.empty
  rw [H.data_empty, List.append_nil] at hdata
  exact (H.drain_perm _).trans hdata

end MinQueue

def Var.less (v w : Var) : Bool := v.slot < w.slot

theorem Var.exists_least {vars : List Var} (h : vars ≠ []) :
    ∃ v ∈ vars, ∀ w ∈ vars, Var.less w v = false := by
  have hmem : ∀ w, w ∈ Var.sort vars ↔ w ∈ vars := fun w => (Var.sort_perm vars).mem_iff
  have hsorted := Var.sort_pairwise vars
  cases hs : Var.sort vars with
  | nil => exact absurd (hs ▸ Var.sort_perm vars).nil_eq.symm h
  | cons v rest =>
    rw [hs] at hmem hsorted
    refine ⟨v, (hmem v).1 List.mem_cons_self, fun w hw => ?_⟩
    have hle : v.slot ≤ w.slot := by
      rcases List.mem_cons.1 ((hmem w).2 hw) with rfl | hrest
      · exact Int.le_refl _
      · exact (List.pairwise_cons.1 hsorted).1 w hrest
    simpa [Var.less] using hle

/-- A queue that keeps its variables in a list and looks for a least one when it is asked. -/
def MinQueue.scanning : MinQueue Var Var.less where
  Queue := List Var
  data := id
  empty := []
  push q v := v :: q
  pop? q := (q.find? fun v => q.all fun w => !Var.less w v).map fun v => (v, q.erase v)
  data_empty := rfl
  data_push _ _ := .refl _
  data_of_none q h := by
    by_contra hq
    obtain ⟨v, hv, hleast⟩ := Var.exists_least hq
    apply List.find?_eq_none.1 (Option.map_eq_none_iff.1 h) v hv
    exact List.all_eq_true.2 fun w hw => by rw [hleast w hw]; rfl
  data_of_some q v q' h := by
    obtain ⟨w, hw, heq⟩ := Option.map_eq_some_iff.1 h
    cases heq
    refine ⟨List.perm_cons_erase (List.mem_of_find?_eq_some hw), fun u hu => ?_⟩
    have hall := List.find?_some hw
    have hleast := List.all_eq_true.1 hall u (List.mem_of_mem_erase hu)
    simpa using hleast

theorem Var.sort_strict {vars : List Var} (hd : vars.Pairwise (·.slot ≠ ·.slot)) :
    (Var.sort vars).Pairwise (·.slot < ·.slot) := by
  have hne : (Var.sort vars).Pairwise (·.slot ≠ ·.slot) :=
    (Var.sort_perm vars).symm.pairwise hd Ne.symm
  refine (Var.sort_pairwise vars).imp₂ ?_ hne
  intro v w hle hne
  omega

/-- With distinct slots, every queue gives the variables up in the order of sorting, whatever the
order in which they were put into it. -/
theorem MinQueue.sort_eq (H : MinQueue Var Var.less) {order vars : List Var}
    (h : order.Perm vars) (hd : vars.Pairwise (·.slot ≠ ·.slot)) :
    H.sort order = Var.sort vars := by
  have hperm := ((H.sort_perm order).trans h).trans (Var.sort_perm vars).symm
  have hle : (H.sort order).Pairwise (·.slot ≤ ·.slot) :=
    (H.drain_pairwise _).imp fun hless => by simpa [Var.less] using hless
  refine hperm.eq_of_pairwise ?_ hle (Var.sort_pairwise vars)
  intro v w hv hw hvw hwv
  have hv' := h.mem_iff.1 ((H.sort_perm order).mem_iff.1 hv)
  have hw' := (Var.sort_perm vars).mem_iff.1 hw
  exact Var.eq_of_slot_eq hd hv' hw' (Int.le_antisymm hvw hwv)

theorem length_varsFrom (slot : Nat) (xs : List Name) : (varsFrom slot xs).length = xs.length := by
  induction xs generalizing slot with
  | nil => rfl
  | cons x xs ih => rw [varsFrom, List.length_cons, ih, List.length_cons]

theorem getElem?_varsFrom {slot i : Nat} {xs : List Name} {x : Name} (h : xs[i]? = some x) :
    (varsFrom slot xs)[i]? = some ⟨x.text, (slot + i : Nat), x.span.pos⟩ := by
  induction xs generalizing slot i with
  | nil => simp at h
  | cons y xs ih =>
    cases i with
    | zero =>
      cases h
      rfl
    | succ i =>
      rw [varsFrom, List.getElem?_cons_succ, ih h]
      congr 3
      omega

theorem map_name_varsFrom (slot : Nat) (xs : List Name) :
    (varsFrom slot xs).map Var.name = xs.map Name.text := by
  induction xs generalizing slot with
  | nil => rfl
  | cons x xs ih => rw [varsFrom, List.map_cons, ih, List.map_cons]

open Codegen

theorem bindings_of_scoped (t : Target) {ss : List Stmt} (h : Scoped [] ss) :
    ∃ code s, stmtsFrom t 0 .initial ss = .ok (code, s) ∧ s.vars.Perm (varsFrom 0 (lets ss)) ∧
      (s.vars.map Var.name).Nodup := by
  have hvars : (State.after ss).vars.Perm (varsFrom 0 (lets ss)) := List.reverse_perm _
  refine ⟨_, _, stmtsFrom_initial t h, hvars, ?_⟩
  apply (hvars.map Var.name).nodup_iff.2
  rw [map_name_varsFrom]
  exact (scoped_iff.1 h).2.1

def Instr.isPush : Instr → Bool
  | .push _ => true
  | _ => false

def Instr.isPop : Instr → Bool
  | .pop _ => true
  | _ => false

/-- The pushes of code less its pops. -/
def netPushes (code : List Instr) : Int := code.countP Instr.isPush - code.countP Instr.isPop

theorem netPushes_append (code more : List Instr) :
    netPushes (code ++ more) = netPushes code + netPushes more := by
  simp only [netPushes, List.countP_append]
  omega

theorem netPushes_cons (i : Instr) (code : List Instr) :
    netPushes (i :: code) = growth i + netPushes code := by
  have hone : netPushes [i] = growth i := by cases i <;> rfl
  rw [← hone, ← netPushes_append, List.singleton_append]

theorem depth_emit (s : State) (code : List Instr) :
    (s.emit code).depth = s.depth + netPushes code := by
  induction code generalizing s with
  | nil => simp [State.emit, netPushes]
  | cons i code ih =>
    have hstep : s.emit (i :: code) = (s.emit [i]).emit code := rfl
    rw [hstep, ih, netPushes_cons, ← Int.add_assoc]
    rfl

theorem depth_of_stmt {t : Target} {s after : State} {x : Stmt} {code : List Instr}
    (h : stmt t s x = .ok (code, after)) : after.depth = s.depth + netPushes code := by
  cases x with
  | foreign node => cases h
  | declare span name value =>
    rw [stmt] at h
    split at h
    · cases h
    · split at h
      · cases h
      · cases h
        exact depth_emit _ _
  | exit span status =>
    rw [stmt] at h
    split at h
    · cases h
    · cases h
      exact depth_emit _ _

theorem stmtsFrom_cons_eq_ok_iff {t : Target} {i : Nat} {s last : State} {x : Stmt}
    {rest : List Stmt} {code : List Instr} :
    stmtsFrom t i s (x :: rest) = .ok (code, last) ↔
      ∃ first after more, stmt t s x = .ok (first, after) ∧
        stmtsFrom t (i + 1) after rest = .ok (more, last) ∧ code = first ++ more := by
  rw [stmtsFrom]
  cases stmt t s x with
  | error fault => simp
  | ok result =>
    obtain ⟨first, after⟩ := result
    dsimp only
    cases hrest : stmtsFrom t (i + 1) after rest with
    | error e => simp [hrest]
    | ok result =>
      obtain ⟨more, last'⟩ := result
      simp [hrest, and_comm, eq_comm]

theorem depth_of_stmtsFrom {t : Target} {i : Nat} {s last : State} {ss : List Stmt}
    {code : List Instr} (h : stmtsFrom t i s ss = .ok (code, last)) :
    last.depth = s.depth + netPushes code := by
  induction ss generalizing i s code with
  | nil =>
    cases h
    simp [netPushes]
  | cons x rest ih =>
    obtain ⟨first, after, more, hx, hrest, rfl⟩ := stmtsFrom_cons_eq_ok_iff.1 h
    rw [ih hrest, depth_of_stmt hx, netPushes_append, Int.add_assoc]

theorem stmtsFrom_append {t : Target} {i : Nat} {s last : State} {before rest : List Stmt}
    {whole : List Instr} (h : stmtsFrom t i s (before ++ rest) = .ok (whole, last)) :
    ∃ code more after, stmtsFrom t i s before = .ok (code, after) ∧ whole = code ++ more := by
  induction before generalizing i s whole with
  | nil => exact ⟨[], whole, s, rfl, rfl⟩
  | cons x before ih =>
    obtain ⟨first, next, others, hx, hrest, rfl⟩ := stmtsFrom_cons_eq_ok_iff.1 h
    obtain ⟨code, more, after, hcode, rfl⟩ := ih hrest
    refine ⟨first ++ code, more, after, ?_, (List.append_assoc _ _ _).symm⟩
    exact stmtsFrom_cons_eq_ok_iff.2 ⟨first, next, code, hx, hcode, rfl⟩

theorem Scoped.of_append {before pre post : List Stmt} (h : Scoped before (pre ++ post)) :
    Scoped before pre := by
  induction pre generalizing before with
  | nil => trivial
  | cons s pre ih => exact ⟨h.1, ih h.2⟩

/-- The code of the statements before a boundary starts the text of the program, and leaves as many
words on the stack as they declare names. -/
theorem depth_at_boundary {c : Compiler} {p : Program} {o : Object}
    (h : c.compileProgram p = .ok o) {before rest : List Stmt} (hp : p.stmts = before ++ rest) :
    ∃ code more s, stmtsFrom c.target 0 .initial before = .ok (code, s) ∧
      o.text = c.target.header ++ listing (code ++ more) ++ c.target.trailer c.output ∧
      s.depth = netPushes code ∧ s.depth = (lets before).length := by
  have hscoped := (Compiler.compileProgram_eq_ok_iff.1 h).1
  rw [hp] at hscoped
  have hbefore := stmtsFrom_initial c.target hscoped.of_append
  rw [Compiler.compileProgram, hp] at h
  split at h
  · cases h
  next whole last hrun =>
    cases h
    obtain ⟨code, more, s, hcode, rfl⟩ := stmtsFrom_append hrun
    cases hcode.symm.trans hbefore
    refine ⟨_, more ++ defaultExit c.target last, _, hcode, ?_, ?_, rfl⟩
    · rw [← List.append_assoc (body _ _ _ _)]
    · rw [depth_of_stmtsFrom hcode]
      exact Int.zero_add _

/-- The variables of a compiled program are its declarations in the order of the text, numbered
from zero, and any queue and any order of the bindings would give the same list. The number of a
variable is the depth of the stack where its declaration starts, which is that of the pushes and
pops in the text up to there. All variables that have distinct slots come out of every queue in
the one order in which their slots increase. -/
theorem variables_list_declarations {c : Compiler} {p : Program} {o : Object}
    (h : c.compileProgram p = .ok o) :
    o.vars.length = (lets p.stmts).length ∧
    (∀ (i : Nat) (x : Name), (lets p.stmts)[i]? = some x →
      o.vars[i]? = some ⟨x.text, i, x.span.pos⟩) ∧
    (∀ (before after : List Stmt) (span : Span) (x : Name) (value : Expr),
      p.stmts = before ++ .declare span x value :: after →
      ∃ code more s, stmtsFrom c.target 0 .initial before = .ok (code, s) ∧
        o.text = c.target.header ++ listing (code ++ more) ++ c.target.trailer c.output ∧
        s.depth = netPushes code ∧
        o.vars[(lets before).length]? = some ⟨x.text, s.depth, x.span.pos⟩) ∧
    (∃ code s, stmtsFrom c.target 0 .initial p.stmts = .ok (code, s) ∧
      (s.vars.map Var.name).Nodup ∧ ∀ (H : MinQueue Var Var.less) (order : List Var),
        order.Perm s.vars → H.sort order = o.vars) ∧
    ∀ vars : List Var, vars.Pairwise (·.slot ≠ ·.slot) →
      ∃ sorted, sorted.Perm vars ∧ sorted.Pairwise (·.slot < ·.slot) ∧
        ∀ (H : MinQueue Var Var.less) (order : List Var), order.Perm vars →
          H.sort order = sorted ∧ Var.sort order = sorted := by
  obtain ⟨hscoped, rfl⟩ := Compiler.compileProgram_eq_ok_iff.1 h
  have hentry : ∀ (i : Nat) (x : Name), (lets p.stmts)[i]? = some x →
      (c.objectOf p).vars[i]? = some ⟨x.text, i, x.span.pos⟩ := by
    intro i x hx
    have hslot : (varsFrom 0 (lets p.stmts))[i]? = _ := getElem?_varsFrom hx
    rw [Nat.zero_add] at hslot
    exact hslot
  refine ⟨length_varsFrom 0 _, hentry, ?_, ?_, ?_⟩
  · intro before after span x value hp
    obtain ⟨code, more, s, hcode, htext, hnet, hdepth⟩ := depth_at_boundary h hp
    refine ⟨code, more, s, hcode, htext, hnet, ?_⟩
    rw [hdepth]
    apply hentry
    rw [hp, lets_append, lets_declare, List.getElem?_append_right (Nat.le_refl _), Nat.sub_self]
    rfl
  · obtain ⟨code, s, hrun, hvars, hnames⟩ := bindings_of_scoped c.target hscoped
    refine ⟨code, s, hrun, hnames, fun H order horder => ?_⟩
    rw [H.sort_eq (horder.trans hvars) (varsFrom_slots_ne 0 _), sort_varsFrom]
    rfl
  · intro vars hd
    refine ⟨Var.sort vars, Var.sort_perm vars, Var.sort_strict hd, ?_⟩
    exact fun H order horder => ⟨H.sort_eq horder hd, Var.sort_eq_of_perm horder hd⟩

theorem exit_between_takes_no_slot :
    ∃ o, Compiler.compileProgram .default ⟨[
        .declare ⟨0, 10⟩ ⟨⟨4, 5⟩, utf8 "b"⟩ (.literal ⟨8, 9⟩ (utf8 "7")),
        .exit ⟨10, 18⟩ (.var ⟨⟨15, 16⟩, utf8 "b"⟩),
        .declare ⟨18, 28⟩ ⟨⟨22, 23⟩, utf8 "a"⟩ (.var ⟨⟨26, 27⟩, utf8 "b"⟩)]⟩ = .ok o ∧
      o.vars.length = 2 ∧ o.vars[1]? = some ⟨utf8 "a", 1, 22⟩ ∧
      (∃ code, code.countP Instr.isPush = 2 ∧ code.countP Instr.isPop = 1 ∧
        o.vars[1]? = some ⟨utf8 "a", netPushes code, 22⟩) ∧
      MinQueue.scanning.sort [⟨utf8 "b", 0, 4⟩, ⟨utf8 "a", 1, 22⟩] = o.vars ∧
      MinQueue.scanning.sort [⟨utf8 "a", 1, 22⟩, ⟨utf8 "b", 0, 4⟩] = o.vars := by
  generalize hrun : Compiler.compileProgram _ _ = run
  have hok : run.isOk := by rw [← hrun]; decide +kernel
  cases run with
  | error e => cases hok
  | ok o =>
    obtain ⟨hlength, hentry, hslot, ⟨code, s, hs, -, hqueue⟩, -⟩ := variables_list_declarations hrun
    have hbindings := congrArg (Except.map fun result => result.2.vars) hs
    have hvars : s.vars = [⟨utf8 "a", 1, 22⟩, ⟨utf8 "b", 0, 4⟩] :=
      Except.ok.inj (hbindings.symm.trans (by decide +kernel))
    refine ⟨o, rfl, hlength, hentry 1 _ rfl, ?_, hqueue _ _ ?_, hqueue _ _ ?_⟩
    · obtain ⟨code, more, s, hcode, -, hnet, ha⟩ := hslot [_, _] [] _ _ _ rfl
      rw [hnet] at ha
      have hcounts := congrArg (Except.map fun result =>
        (result.1.countP Instr.isPush, result.1.countP Instr.isPop)) hcode
      have htwo : (code.countP Instr.isPush, code.countP Instr.isPop) = (2, 1) :=
        Except.ok.inj (hcounts.symm.trans (by decide +kernel))
      exact ⟨code, congrArg Prod.fst htwo, congrArg Prod.snd htwo, ha⟩
    · rw [hvars]
      exact .swap _ _ _
    · rw [hvars]

end LetExit
