import Mathlib.Data.List.Forall2
import Mathlib.Data.Set.Function
import LetExit.Proofs.Scoping
import LetExit.Proofs.Compilation

/-!
# Programs up to renaming

Generated code knows a variable by its ordinal only, so renaming a program
does not change its text. Conversely the text determines the program up to
renaming: the code of each statement can be split off the front of what
follows. A literal and an exit call both begin with a move into the same
register, and a literal may even be the number of the exit call; the
instruction behind the move tells them apart.
-/

set_option autoImplicit false

namespace LetExit

open Codegen

/-- Two expressions are the same literal, or read the declarations with the same ordinal. -/
inductive Expr.Alike (names names' : List Bytes) : Expr → Expr → Prop where
  | literal {span span' : Span} {digits : Bytes} :
      Alike names names' (.literal span digits) (.literal span' digits)
  | var {x x' : Name} (i : Nat) (hx : names[i]? = some x.text)
      (hx' : names'[i]? = some x'.text) : Alike names names' (.var x) (.var x')

inductive Stmt.Alike (names names' : List Bytes) : Stmt → Stmt → Prop where
  | declare {span span' : Span} {x x' : Name} {value value' : Expr}
      (h : value.Alike names names' value') :
      Alike names names' (.declare span x value) (.declare span' x' value')
  | exit {span span' : Span} {status status' : Expr} (h : status.Alike names names' status') :
      Alike names names' (.exit span status) (.exit span' status')

/-- The programs differ at most in positions and in the choice of names. -/
def AlphaEquiv (p q : Program) : Prop :=
  List.Forall₂ (Stmt.Alike (declared p.stmts) (declared q.stmts)) p.stmts q.stmts

theorem idxOf_eq_of_getElem? {names : List Bytes} {i : Nat} {x : Bytes} (hn : names.Nodup)
    (h : names[i]? = some x) : names.idxOf x = i := by
  obtain ⟨hi, rfl⟩ := List.getElem?_eq_some_iff.1 h
  exact hn.idxOf_getElem i hi

section Alike

variable {names names' : List Bytes} {s s' : Stmt} {ss ss' : List Stmt}

theorem load_eq_of_alike {e e' : Expr} (depth : Nat) (hn : names.Nodup) (hn' : names'.Nodup)
    (h : e.Alike names names' e') : load names depth e = load names' depth e' := by
  cases h with
  | literal => rfl
  | var i hx hx' => rw [load, load, idxOf_eq_of_getElem? hn hx, idxOf_eq_of_getElem? hn' hx']

theorem Stmt.Alike.length_lets (h : s.Alike names names' s') :
    (lets [s]).length = (lets [s']).length := by
  cases h <;> rfl

theorem Stmt.Alike.isExit_eq (h : s.Alike names names' s') : s.isExit = s'.isExit := by
  cases h <;> rfl

theorem group_eq_of_alike {t : Target} (depth : Nat) (hn : names.Nodup) (hn' : names'.Nodup)
    (h : s.Alike names names' s') : group t names depth s = group t names' depth s' := by
  cases h with
  | declare hv => exact load_eq_of_alike depth hn hn' hv
  | exit hv => rw [group, group, load_eq_of_alike depth hn hn' hv]

theorem body_eq_of_alike {t : Target} (depth : Nat) (hn : names.Nodup) (hn' : names'.Nodup)
    (h : List.Forall₂ (Stmt.Alike names names') ss ss') :
    body t names depth ss = body t names' depth ss' := by
  induction h generalizing depth with
  | nil => rfl
  | cons hs _ ih => rw [body, body, group_eq_of_alike depth hn hn' hs, hs.length_lets, ih]

theorem any_isExit_of_alike (h : List.Forall₂ (Stmt.Alike names names') ss ss') :
    ss.any Stmt.isExit = ss'.any Stmt.isExit := by
  induction h with
  | nil => rfl
  | cons hs _ ih => rw [List.any_cons, List.any_cons, hs.isExit_eq, ih]

end Alike

theorem AlphaEquiv.code_eq {p q : Program} {t : Target} (hp : Scoped [] p.stmts)
    (hq : Scoped [] q.stmts) (h : AlphaEquiv p q) : p.code t = q.code t := by
  have hn := (scoped_iff.1 hp).2.1
  have hn' := (scoped_iff.1 hq).2.1
  rw [Program.code, Program.code, body_eq_of_alike 0 hn hn' h, any_isExit_of_alike h]

/-! The statements can be read off the code again. -/

def Stmt.Closed (names : List Bytes) : Stmt → Prop
  | .declare _ _ value => value.Scoped names
  | .exit _ status => status.Scoped names
  | .foreign _ => False

theorem Scoped.closed {ss : List Stmt} (h : Scoped [] ss) : ∀ s ∈ ss, s.Closed (declared ss) := by
  intro s hs
  have hknown := (scoped_iff.1 h).1 s hs
  have hreads := h.reads_declared hs
  cases s with
  | declare span x value => exact Expr.scoped_iff.2 ⟨hknown, hreads⟩
  | exit span status => exact Expr.scoped_iff.2 ⟨hknown, hreads⟩
  | foreign node => exact hknown

/-- Code that begins with an exit call whose status is on the stack. Only an exit statement has
such code, behind that of its expression. -/
def PopsStatus : List Instr → Prop
  | .mov _ _ :: .pop _ :: _ => True
  | _ => False

section Decoding

variable {t : Target} {names names' : List Bytes} {depth : Nat} {rest rest' : List Instr}

theorem not_popsStatus_load {e : Expr} (h : e.Scoped names) :
    ¬PopsStatus (load names depth e ++ rest) := by
  cases e with
  | literal span digits => exact id
  | var x => exact id
  | foreign node => exact h.elim

theorem load_ne_ending {e : Expr} (h : e.Scoped names) (exits : Bool) :
    load names depth e ++ rest ≠ ending t exits := by
  cases e with
  | literal span digits => cases exits <;> simp [load, ending, exitCall]
  | var x => cases exits <;> simp [load, ending, exitCall]
  | foreign node => exact h.elim

theorem group_eq_load {s : Stmt} (t : Target) (depth : Nat) (h : s.Closed names) :
    ∃ e more, e.Scoped names ∧ group t names depth s = load names depth e ++ more := by
  cases s with
  | declare span x value => exact ⟨value, [], h, (List.append_nil _).symm⟩
  | exit span status => exact ⟨status, _, h, rfl⟩
  | foreign node => exact h.elim

theorem group_ne_ending {s : Stmt} (h : s.Closed names) (exits : Bool) :
    group t names depth s ++ rest ≠ ending t exits := by
  obtain ⟨e, more, he, hgroup⟩ := group_eq_load t depth h
  rw [hgroup, List.append_assoc]
  exact load_ne_ending he exits

theorem not_popsStatus_body {ss : List Stmt} (h : ∀ s ∈ ss, s.Closed names) (exits : Bool) :
    ¬PopsStatus (body t names depth ss ++ ending t exits) := by
  cases ss with
  | nil => cases exits <;> exact id
  | cons s ss =>
    obtain ⟨e, more, he, hgroup⟩ := group_eq_load t depth (h s (by simp))
    rw [body, hgroup, List.append_assoc, List.append_assoc]
    exact not_popsStatus_load he

theorem load_inj {e e' : Expr} (he : e.Scoped names) (he' : e'.Scoped names')
    (h : load names depth e ++ rest = load names' depth e' ++ rest') :
    e.Alike names names' e' ∧ rest = rest' := by
  cases e with
  | literal span digits =>
    cases e' with
    | literal span' digits' =>
      simp only [load, List.cons_append, List.nil_append, List.cons.injEq, Instr.mov.injEq,
        true_and] at h
      obtain ⟨rfl, hrest⟩ := h
      exact ⟨.literal, hrest⟩
    | var x' => simp [load] at h
    | foreign node => exact he'.elim
  | var x =>
    cases e' with
    | literal span' digits' => simp [load] at h
    | var x' =>
      simp only [load, List.cons_append, List.nil_append, List.cons.injEq, Instr.push.injEq,
        Operand.mem.injEq, true_and, wordSize] at h
      obtain ⟨hdisp, hrest⟩ := h
      have hidx : names.idxOf x.text = names'.idxOf x'.text := by omega
      refine ⟨.var (names.idxOf x.text) (List.getElem?_idxOf he) ?_, hrest⟩
      rw [hidx]
      exact List.getElem?_idxOf he'
    | foreign node => exact he'.elim
  | foreign node => exact he.elim

theorem group_inj {s s' : Stmt} (hs : s.Closed names) (hs' : s'.Closed names')
    (hrest : ¬PopsStatus rest) (hrest' : ¬PopsStatus rest')
    (h : group t names depth s ++ rest = group t names' depth s' ++ rest') :
    s.Alike names names' s' ∧ rest = rest' := by
  cases s with
  | declare span x value =>
    cases s' with
    | declare span' x' value' =>
      obtain ⟨hvalue, hcode⟩ := load_inj hs hs' h
      exact ⟨.declare hvalue, hcode⟩
    | exit span' status' =>
      -- behind the same expression, only one of the two goes on with an exit call
      rw [group, group, List.append_assoc] at h
      obtain ⟨-, rfl⟩ := load_inj hs hs' h
      exact absurd trivial hrest
    | foreign node => exact hs'.elim
  | exit span status =>
    cases s' with
    | declare span' x' value' =>
      rw [group, group, List.append_assoc] at h
      obtain ⟨-, rfl⟩ := load_inj hs hs' h
      exact absurd trivial hrest'
    | exit span' status' =>
      rw [group, group, List.append_assoc, List.append_assoc] at h
      obtain ⟨hstatus, hcode⟩ := load_inj hs hs' h
      exact ⟨.exit hstatus, List.append_cancel_left hcode⟩
    | foreign node => exact hs'.elim
  | foreign node => exact hs.elim

/-- Statements are determined by their code up to the names they use. -/
theorem body_inj {ss ss' : List Stmt} {exits exits' : Bool} (hs : ∀ s ∈ ss, s.Closed names)
    (hs' : ∀ s ∈ ss', s.Closed names')
    (h : body t names depth ss ++ ending t exits = body t names' depth ss' ++ ending t exits') :
    List.Forall₂ (Stmt.Alike names names') ss ss' := by
  induction ss generalizing ss' depth with
  | nil =>
    cases ss' with
    | nil => exact .nil
    | cons s' ss' =>
      rw [body, body, List.append_assoc] at h
      exact absurd h.symm (group_ne_ending (hs' s' (by simp)) exits)
  | cons s ss ih =>
    cases ss' with
    | nil =>
      rw [body, body, List.append_assoc] at h
      exact absurd h (group_ne_ending (hs s (by simp)) exits')
    | cons s' ss' =>
      obtain ⟨hhead, htail⟩ := List.forall_mem_cons.1 hs
      obtain ⟨hhead', htail'⟩ := List.forall_mem_cons.1 hs'
      rw [body, body, List.append_assoc, List.append_assoc] at h
      obtain ⟨halike, hcode⟩ := group_inj hhead hhead' (not_popsStatus_body htail exits)
        (not_popsStatus_body htail' exits') h
      -- both declare or neither does, so the tails are at the same depth
      rw [halike.length_lets] at hcode
      exact .cons halike (ih htail htail' hcode)

end Decoding

theorem code_eq_iff_alphaEquiv {p q : Program} {t : Target} (hp : Scoped [] p.stmts)
    (hq : Scoped [] q.stmts) : p.code t = q.code t ↔ AlphaEquiv p q :=
  ⟨body_inj hp.closed hq.closed, AlphaEquiv.code_eq hp hq⟩

/-! A renaming keeps every place and changes every name. -/

section Renaming

variable (ρ : Bytes → Bytes)

def Name.rename (x : Name) : Name := { x with text := ρ x.text }

def Var.rename (v : Var) : Var := { v with name := ρ v.name }

def Expr.rename : Expr → Expr
  | .var x => .var (x.rename ρ)
  | e => e

def Stmt.rename : Stmt → Stmt
  | .declare span x value => .declare span (x.rename ρ) (value.rename ρ)
  | .exit span status => .exit span (status.rename ρ)
  | .foreign node => .foreign node

def Program.rename (p : Program) : Program := ⟨p.stmts.map (Stmt.rename ρ)⟩

theorem lets_rename (ss : List Stmt) :
    lets (ss.map (Stmt.rename ρ)) = (lets ss).map (Name.rename ρ) := by
  induction ss with
  | nil => rfl
  | cons s ss ih => cases s <;> simp [Stmt.rename, ih]

theorem declared_rename (ss : List Stmt) :
    declared (ss.map (Stmt.rename ρ)) = (declared ss).map ρ := by
  simp [declared, lets_rename, Name.rename]

theorem Expr.known_rename {e : Expr} (h : e.Known) : (e.rename ρ).Known := by
  cases e with
  | literal span digits => trivial
  | var x => trivial
  | foreign node => exact h

theorem Stmt.known_rename {s : Stmt} (h : s.Known) : (s.rename ρ).Known := by
  cases s with
  | declare span x value => exact Expr.known_rename ρ h
  | exit span status => exact Expr.known_rename ρ h
  | foreign node => exact h

theorem Expr.names_rename (e : Expr) : (e.rename ρ).names = e.names.map (Name.rename ρ) := by
  cases e <;> rfl

theorem Stmt.reads_rename (s : Stmt) : (s.rename ρ).reads = s.reads.map (Name.rename ρ) := by
  cases s with
  | declare span x value => exact value.names_rename ρ
  | exit span status => exact status.names_rename ρ
  | foreign node => rfl

theorem readsUndeclared_of_rename {ss : List Stmt}
    (h : ReadsUndeclared (ss.map (Stmt.rename ρ))) : ReadsUndeclared ss := by
  obtain ⟨_, _, _, hss, y, hy, hnot⟩ := h
  obtain ⟨before, rest, rfl, rfl, hrest⟩ := List.map_eq_append_iff.1 hss
  obtain ⟨s, after, rfl, rfl, rfl⟩ := List.map_eq_cons_iff.1 hrest
  rw [Stmt.reads_rename] at hy
  obtain ⟨x, hx, rfl⟩ := List.mem_map.1 hy
  refine ⟨before, s, after, rfl, x, hx, fun hmem => hnot ?_⟩
  rw [← List.map_singleton, ← List.map_append, declared_rename]
  exact List.mem_map_of_mem hmem

variable {ρ}

theorem Scoped.rename {ss : List Stmt} (h : Scoped [] ss)
    (hρ : Set.InjOn ρ {x | x ∈ declared ss}) : Scoped [] (ss.map (Stmt.rename ρ)) := by
  obtain ⟨hknown, hnodup, hreads⟩ := scoped_iff.1 h
  refine scoped_iff.2 ⟨?_, ?_, fun hnot => hreads (readsUndeclared_of_rename ρ hnot)⟩
  · exact List.forall_mem_map.2 fun s hs => Stmt.known_rename ρ (hknown s hs)
  · rw [declared_rename]
    exact hnodup.map_on fun x hx y hy hxy => hρ hx hy hxy

theorem Expr.alike_rename {names : List Bytes} {e : Expr} (h : e.Scoped names) :
    e.Alike names (names.map ρ) (e.rename ρ) := by
  cases e with
  | literal span digits => exact .literal
  | var x =>
    have hx : names[names.idxOf x.text]? = some x.text := List.getElem?_idxOf h
    exact .var (names.idxOf x.text) hx (by rw [List.getElem?_map, hx]; rfl)
  | foreign node => exact h.elim

theorem Stmt.alike_rename {names : List Bytes} {s : Stmt} (h : s.Closed names) :
    s.Alike names (names.map ρ) (s.rename ρ) := by
  cases s with
  | declare span x value => exact .declare (Expr.alike_rename h)
  | exit span status => exact .exit (Expr.alike_rename h)
  | foreign node => exact h.elim

theorem alphaEquiv_rename {p : Program} (h : Scoped [] p.stmts) : AlphaEquiv p (p.rename ρ) := by
  show List.Forall₂ (Stmt.Alike (declared p.stmts) (declared (p.stmts.map (Stmt.rename ρ))))
    p.stmts (p.stmts.map (Stmt.rename ρ))
  rw [declared_rename, List.forall₂_map_right_iff, List.forall₂_same]
  exact fun s hs => Stmt.alike_rename (h.closed s hs)

theorem varsFrom_rename (slot : Nat) (xs : List Name) :
    varsFrom slot (xs.map (Name.rename ρ)) = (varsFrom slot xs).map (Var.rename ρ) := by
  induction xs generalizing slot with
  | nil => rfl
  | cons x xs ih => simp only [List.map_cons, varsFrom, ih]; rfl

theorem Compiler.objectOf_rename (c : Compiler) {p : Program} (h : Scoped [] p.stmts)
    (hρ : Set.InjOn ρ {x | x ∈ declared p.stmts}) :
    c.objectOf (p.rename ρ) =
      { c.objectOf p with vars := (c.objectOf p).vars.map (Var.rename ρ) } := by
  have halpha : AlphaEquiv p (p.rename ρ) := alphaEquiv_rename h
  have hcode : p.code c.target = (p.rename ρ).code c.target := halpha.code_eq h (h.rename hρ)
  have hvars : varsFrom 0 (lets (p.rename ρ).stmts) =
      (varsFrom 0 (lets p.stmts)).map (Var.rename ρ) := by
    rw [← varsFrom_rename, ← lets_rename]
    rfl
  have hexited : p.stmts.any Stmt.isExit = (p.rename ρ).stmts.any Stmt.isExit :=
    any_isExit_of_alike halpha
  simp only [Compiler.objectOf, hcode, hvars, hexited]

end Renaming

theorem Source.text_eq_iff_alphaEquiv {t : Target} (ht : t ∈ Target.all)
    {output text text' : Bytes} {o o' : Object} (h : Source.compile ⟨t, output⟩ text = .ok o)
    (h' : Source.compile ⟨t, output⟩ text' = .ok o') :
    ∃ p p', Source.program text = .ok p ∧ Source.program text' = .ok p' ∧
      (o.text = o'.text ↔ AlphaEquiv p p') := by
  obtain ⟨p, hp, hscoped, rfl⟩ := Source.compile_eq_ok_iff.1 h
  obtain ⟨p', hp', hscoped', rfl⟩ := Source.compile_eq_ok_iff.1 h'
  have hread := instructions?_objectOf (c := ⟨t, output⟩) ht (Source.program_wellFormed hp)
  have hread' := instructions?_objectOf (c := ⟨t, output⟩) ht (Source.program_wellFormed hp')
  refine ⟨p, p', hp, hp', ?_⟩
  rw [← code_eq_iff_alphaEquiv (t := t) hscoped hscoped']
  constructor
  · intro htext
    rw [htext] at hread
    exact Option.some.inj (hread.symm.trans hread')
  · intro hcode
    simp only [Compiler.objectOf, hcode]

/-- Two source texts have the same assembly text exactly if their programs are equal up to
renaming. A renaming that keeps the declared names apart only renames the variables of the
compiled program. -/
theorem compiled_text_identifies_program_up_to_renaming :
    (∀ t ∈ Target.all, ∀ (output text text' : Bytes) (o o' : Object),
      Source.compile ⟨t, output⟩ text = .ok o → Source.compile ⟨t, output⟩ text' = .ok o' →
      ∃ p p', Source.program text = .ok p ∧ Source.program text' = .ok p' ∧
        (o.text = o'.text ↔ AlphaEquiv p p')) ∧
    ∀ (c : Compiler) (p : Program) (o : Object) (ρ : Bytes → Bytes),
      c.compileProgram p = .ok o → Set.InjOn ρ {x | x ∈ declared p.stmts} →
      c.compileProgram (p.rename ρ) = .ok { o with vars := o.vars.map (Var.rename ρ) } := by
  constructor
  · intro t ht output text text' o o' h h'
    exact Source.text_eq_iff_alphaEquiv ht h h'
  · intro c p o ρ h hρ
    obtain ⟨hscoped, rfl⟩ := Compiler.compileProgram_eq_ok_iff.1 h
    have hrenamed : Scoped [] (p.rename ρ).stmts := hscoped.rename hρ
    rw [c.compileProgram_of_scoped hrenamed, c.objectOf_rename hscoped hρ]

theorem exchanged_names_compile_alike :
    ∃ o o' p p',
      Source.compile ⟨.linux, utf8 "a.asm"⟩ (utf8 "jen a = 60; jen b = a; finu(b);") = .ok o ∧
      Source.compile ⟨.linux, utf8 "a.asm"⟩ (utf8 "jen b=60; jen a=b; finu(a);") = .ok o' ∧
      Source.program (utf8 "jen a = 60; jen b = a; finu(b);") = .ok p ∧
      Source.program (utf8 "jen b=60; jen a=b; finu(a);") = .ok p' ∧
      o.text = o'.text ∧ AlphaEquiv p p' ∧
      Compiler.compileProgram ⟨.linux, utf8 "a.asm"⟩ (p.rename (utf8 "q" ++ ·)) =
        .ok { o with vars := o.vars.map (Var.rename (utf8 "q" ++ ·)) } := by
  have hok : (Source.compile ⟨.linux, utf8 "a.asm"⟩
      (utf8 "jen a = 60; jen b = a; finu(b);")).isOk := by decide +kernel
  have hsame : (Source.compile ⟨.linux, utf8 "a.asm"⟩
      (utf8 "jen a = 60; jen b = a; finu(b);")).map Object.text =
        (Source.compile ⟨.linux, utf8 "a.asm"⟩
          (utf8 "jen b=60; jen a=b; finu(a);")).map Object.text := by decide +kernel
  cases h : Source.compile ⟨.linux, utf8 "a.asm"⟩ (utf8 "jen a = 60; jen b = a; finu(b);") with
  | error e => rw [h] at hok; cases hok
  | ok o =>
    cases h' : Source.compile ⟨.linux, utf8 "a.asm"⟩ (utf8 "jen b=60; jen a=b; finu(a);") with
    | error e => rw [h, h'] at hsame; cases hsame
    | ok o' =>
      have htext : o.text = o'.text := by
        rw [h, h'] at hsame
        exact Except.ok.inj hsame
      obtain ⟨halpha, hrename⟩ := compiled_text_identifies_program_up_to_renaming
      obtain ⟨p, p', hp, hp', hiff⟩ := halpha .linux (by decide) _ _ _ o o' h h'
      have hobject : Compiler.compileProgram ⟨.linux, utf8 "a.asm"⟩ p = .ok o := by
        rw [Source.compile, hp] at h
        exact Source.mapError_eq_ok_iff.1 h
      refine ⟨o, o', p, p', rfl, rfl, hp, hp', htext, hiff.1 htext, ?_⟩
      apply hrename _ p o _ hobject
      intro x _ y _ hxy
      exact List.append_cancel_left hxy

end LetExit
