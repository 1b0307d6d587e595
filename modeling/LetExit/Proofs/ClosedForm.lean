import LetExit.Proofs.Scoping

/-!
# The assembly text in closed form

Each statement has its lines in the assembly text, and these can be written
down from the statements before it. A read of a variable counts down from the
top of the stack, past the words of the declarations that lie between the
variable's own and the statement that reads it. Exits in between do not count,
since an exit takes off the stack what it puts there. A declaration that reads
its own name looks at the word above the top, which no line has put there.
-/

set_option autoImplicit false

namespace LetExit

open Codegen

def asmText (lines : List Bytes) : Bytes := lines.flatMap fun l => utf8 "    " ++ l ++ utf8 "\n"

/-- The words that lines leave on the stack: one for each that pushes, less those that pop. -/
def stackGrowth (lines : List Bytes) : Int :=
  lines.countP (utf8 "push ").isPrefixOf - lines.countP (utf8 "pop ").isPrefixOf

/-- How far from the top of the stack a statement behind the statements `before` looks for the
word of a name: past the words of all declarations since that of the name, or one word above the
top if it declares the name itself. -/
inductive Stmt.Reach (before : List Stmt) (s : Stmt) (x : Name) : Int → Prop where
  | earlier {front between : List Stmt} {span : Span} {y : Name} {value : Expr}
      (hbefore : before = front ++ .declare span y value :: between) (hy : y.text = x.text) :
      Reach before s x (8 * (lets between).length)
  | itself {span : Span} {y : Name} {value : Expr} (hs : s = .declare span y value)
      (hy : y.text = x.text) : Reach before s x (-8)

inductive Expr.Lines (before : List Stmt) (s : Stmt) : Expr → List Bytes → Prop where
  | literal {span : Span} {digits : Bytes} :
      Lines before s (.literal span digits) [utf8 "mov rax, " ++ digits, utf8 "push rax"]
  | var {x : Name} {d : Int} (h : s.Reach before x d) :
      Lines before s (.var x) [utf8 "push QWORD [rsp + " ++ Bytes.ofInt d ++ utf8 "]"]

inductive Stmt.Lines (t : Target) (before : List Stmt) : Stmt → List Bytes → Prop where
  | declare {span : Span} {x : Name} {value : Expr} {lines : List Bytes}
      (h : value.Lines before (.declare span x value) lines) :
      Lines t before (.declare span x value) lines
  | exit {span : Span} {status : Expr} {lines : List Bytes}
      (h : status.Lines before (.exit span status) lines) :
      Lines t before (.exit span status)
        (lines ++ [utf8 "mov rax, " ++ t.exitNumber, utf8 "pop rdi", utf8 "syscall"])

def defaultLines (t : Target) : List Bytes :=
  [utf8 "mov rax, " ++ t.exitNumber, utf8 "mov rdi, 0", utf8 "syscall"]

def Stmt.ReadsItself : Stmt → Prop
  | .declare _ x (.var y) => x.text = y.text
  | _ => False

/-! The lines of instructions. -/

theorem listing_eq_asmText (code : List Instr) : listing code = asmText (code.map Instr.text) := by
  rw [listing, asmText, List.flatMap_map]
  rfl

theorem text_push_rsp (d : Int) : Instr.text (.push (.mem .rsp d)) =
    utf8 "push QWORD [rsp + " ++ Bytes.ofInt d ++ utf8 "]" := by
  simp only [Instr.text, Operand.text, ← List.append_assoc]
  rfl

theorem stackGrowth_append (lines more : List Bytes) :
    stackGrowth (lines ++ more) = stackGrowth lines + stackGrowth more := by
  simp only [stackGrowth, List.countP_append]
  omega

theorem stackGrowth_load {names : List Bytes} {depth : Nat} {e : Expr} (h : e.Known) :
    stackGrowth ((load names depth e).map Instr.text) = 1 := by
  cases e with
  | foreign node => exact h.elim
  | literal span digits => rfl
  | var x =>
    rw [load, List.map_singleton, text_push_rsp]
    rfl

theorem stackGrowth_group {t : Target} {names : List Bytes} {depth : Nat} {s : Stmt}
    (h : s.Known) : stackGrowth ((group t names depth s).map Instr.text) = (lets [s]).length := by
  cases s with
  | foreign node => exact h.elim
  | declare span x value => exact stackGrowth_load h
  | exit span status =>
    rw [group, List.map_append, stackGrowth_append, stackGrowth_load h]
    rfl

/-! The distance of a read is the one that the generator computes from depth and slot. -/

theorem mem_declared_iff {ss : List Stmt} {x : Bytes} :
    x ∈ declared ss ↔ ∃ front span y value between,
      ss = front ++ .declare span y value :: between ∧ y.text = x := by
  constructor
  · intro h
    obtain ⟨y, hy, rfl⟩ := List.mem_map.1 h
    obtain ⟨s, hs, hdeclared⟩ := List.mem_filterMap.1 hy
    obtain ⟨front, between, rfl⟩ := List.append_of_mem hs
    cases s with
    | declare span z value => cases hdeclared; exact ⟨front, span, _, value, between, rfl, rfl⟩
    | exit span status => cases hdeclared
    | foreign node => cases hdeclared
  · rintro ⟨front, span, y, value, between, rfl, rfl⟩
    rw [declared_append]
    simp [declared]

theorem not_mem_declared_of_nodup {front rest : List Stmt} {span : Span} {y : Name} {value : Expr}
    (h : (declared (front ++ .declare span y value :: rest)).Nodup) : y.text ∉ declared front := by
  rw [declared_append] at h
  exact fun hmem => (List.nodup_append.1 h).2.2 _ hmem y.text (by simp [declared]) rfl

section Reads

variable {before after : List Stmt} {s : Stmt} {x : Name}

theorem Stmt.Reach.eq {d : Int} (h : s.Reach before x d)
    (hn : (declared (before ++ s :: after)).Nodup) :
    d = ((lets before).length - (declared (before ++ s :: after)).idxOf x.text - 1) * wordSize := by
  cases h with
  | @earlier front between span y value hbefore hy =>
    subst hbefore
    rw [List.append_assoc, List.cons_append] at hn ⊢
    rw [← hy, idxOf_declared span value (not_mem_declared_of_nodup hn), length_declared,
      lets_append, lets_declare, List.length_append, List.length_cons, wordSize]
    omega
  | @itself span y value hs hy =>
    subst hs
    rw [← hy, idxOf_declared span value (not_mem_declared_of_nodup hn), length_declared, wordSize]
    omega

theorem Stmt.Reach.exists (h : x.text ∈ declared (before ++ [s])) : ∃ d, s.Reach before x d := by
  rw [declared_append, List.mem_append] at h
  rcases h with h | h
  · obtain ⟨front, span, y, value, between, hbefore, hy⟩ := mem_declared_iff.1 h
    exact ⟨_, .earlier hbefore hy⟩
  · cases s with
    | declare span y value => exact ⟨_, .itself rfl (by simpa [declared, eq_comm] using h)⟩
    | exit span status => cases h
    | foreign node => cases h

theorem Stmt.readsItself_iff (hx : x ∈ s.reads) :
    s.ReadsItself ↔ ∃ span y value, s = .declare span y value ∧ y.text = x.text := by
  cases s with
  | exit span status => simp [Stmt.ReadsItself]
  | foreign node => simp [Stmt.ReadsItself]
  | declare span y value =>
    cases value with
    | literal span digits => cases hx
    | foreign node => cases hx
    | var z =>
      rw [List.mem_singleton.1 hx]
      simp [Stmt.ReadsItself]

/-- A read finds one of the words that the declarations before it have left on the stack, unless
the statement reads the name that it declares itself. -/
theorem Stmt.Reach.bounds {d : Int} (h : s.Reach before x d) (hx : x ∈ s.reads)
    (hn : (declared (before ++ s :: after)).Nodup) :
    (s.ReadsItself ∧ d < 0) ∨ (¬s.ReadsItself ∧ 0 ≤ d ∧ d < 8 * (lets before).length) := by
  rw [Stmt.readsItself_iff hx]
  cases h with
  | itself hs hy => exact .inl ⟨⟨_, _, _, hs, hy⟩, by decide⟩
  | @earlier front between span y value hbefore hy =>
    refine .inr ⟨?_, by omega, ?_⟩
    · -- the name would be declared twice
      rintro ⟨span', z, value', rfl, hz⟩
      apply not_mem_declared_of_nodup hn
      exact mem_declared_iff.2 ⟨front, span, y, value, between, hbefore, hy.trans hz.symm⟩
    · rw [hbefore, lets_append, lets_declare, List.length_append, List.length_cons]
      omega

end Reads

namespace Codegen

variable {t : Target} {names : List Bytes}

def groups (t : Target) (names : List Bytes) (depth : Nat) : List Stmt → List (List Bytes)
  | [] => []
  | s :: rest =>
    (group t names depth s).map Instr.text :: groups t names (depth + (lets [s]).length) rest

theorem flatten_groups (depth : Nat) (ss : List Stmt) :
    (groups t names depth ss).flatten = (body t names depth ss).map Instr.text := by
  induction ss generalizing depth with
  | nil => rfl
  | cons s ss ih => rw [groups, List.flatten_cons, ih, body, List.map_append]

theorem length_groups (depth : Nat) (ss : List Stmt) :
    (groups t names depth ss).length = ss.length := by
  induction ss generalizing depth with
  | nil => rfl
  | cons s ss ih => rw [groups, List.length_cons, ih, List.length_cons]

theorem length_lets_cons (s : Stmt) (ss : List Stmt) :
    (lets (s :: ss)).length = (lets [s]).length + (lets ss).length := by
  rw [← List.length_append, ← lets_append, List.singleton_append]

theorem groups_append (depth : Nat) (ss rest : List Stmt) :
    groups t names depth (ss ++ rest) =
      groups t names depth ss ++ groups t names (depth + (lets ss).length) rest := by
  induction ss generalizing depth with
  | nil => rfl
  | cons s ss ih =>
    rw [List.cons_append, groups, ih, groups, List.cons_append, length_lets_cons s ss,
      Nat.add_assoc]

theorem getElem?_groups (before : List Stmt) (s : Stmt) (after : List Stmt) :
    (groups t names 0 (before ++ s :: after))[before.length]? =
      some ((group t names (lets before).length s).map Instr.text) := by
  rw [groups_append, List.getElem?_append_right (Nat.le_of_eq (length_groups _ _)), length_groups,
    Nat.sub_self, Nat.zero_add]
  rfl

theorem take_groups (before rest : List Stmt) :
    (groups t names 0 (before ++ rest)).take before.length = groups t names 0 before := by
  rw [groups_append, List.take_left' (length_groups _ _)]

theorem stackGrowth_groups {ss : List Stmt} (h : ∀ s ∈ ss, s.Known) (depth : Nat) :
    stackGrowth (groups t names depth ss).flatten = (lets ss).length := by
  induction ss generalizing depth with
  | nil => rfl
  | cons s ss ih =>
    rw [groups, List.flatten_cons, stackGrowth_append, stackGrowth_group (h s (by simp)),
      ih fun s' hs' => h s' (by simp [hs']), length_lets_cons s ss]
    omega

section Group

variable {before after : List Stmt} {s : Stmt}
  (hn : (declared (before ++ s :: after)).Nodup)
  (hreads : ∀ x ∈ s.reads, x.text ∈ declared (before ++ [s]))
include hn hreads

theorem load_lines {e : Expr} (he : e.Known) (hnames : e.names ⊆ s.reads) :
    e.Lines before s
      ((load (declared (before ++ s :: after)) (lets before).length e).map Instr.text) := by
  cases e with
  | foreign node => exact he.elim
  | literal span digits => exact .literal
  | var x =>
    have hx : x ∈ s.reads := hnames (List.mem_singleton.2 rfl)
    obtain ⟨d, hd⟩ := Stmt.Reach.exists (hreads x hx)
    rw [load, List.map_singleton, text_push_rsp, ← hd.eq hn]
    exact .var hd

theorem group_lines (hs : s.Known) :
    s.Lines t before
      ((group t (declared (before ++ s :: after)) (lets before).length s).map Instr.text) := by
  cases s with
  | foreign node => exact hs.elim
  | declare span x value => exact .declare (load_lines hn hreads hs (List.Subset.refl _))
  | exit span status =>
    rw [group, List.map_append]
    exact .exit (load_lines hn hreads hs (List.Subset.refl _))

end Group

end Codegen

theorem listing_ending (t : Target) (exits : Bool) :
    listing (ending t exits) = asmText (if exits then [] else defaultLines t) := by
  rw [listing_eq_asmText]
  cases exits <;> rfl

/-- What is known of the text of a compiled program and of the groups of lines in it, one for each
statement. The word that a read looks for is not among those that the lines before it have left on
the stack exactly if a declaration reads its own name. -/
structure Compiler.ClosedForm (c : Compiler) (p : Program) (o : Object)
    (groups : List (List Bytes)) : Prop where
  text : o.text = c.target.header ++ asmText groups.flatten ++
    asmText (if p.stmts.any Stmt.isExit then [] else defaultLines c.target) ++
    c.target.trailer c.output
  exited : o.exited ↔ ∃ s ∈ p.stmts, s.isExit
  length : groups.length = p.stmts.length
  lines : ∀ before s after, p.stmts = before ++ s :: after →
    ∃ group, groups[before.length]? = some group ∧ s.Lines c.target before group
  words : ∀ before s after, p.stmts = before ++ s :: after →
    stackGrowth (groups.take before.length).flatten = (lets before).length
  reach : ∀ before s after, p.stmts = before ++ s :: after → ∀ x ∈ s.reads,
    (∃! d, s.Reach before x d) ∧ ∀ d, s.Reach before x d →
      (d < 0 ↔ s.ReadsItself) ∧
      (¬(0 ≤ d ∧ d < 8 * stackGrowth (groups.take before.length).flatten) ↔ s.ReadsItself)

theorem compiled_text_in_closed_form (c : Compiler) {p : Program} {o : Object}
    (h : c.compileProgram p = .ok o) : ∃ groups, c.ClosedForm p o groups := by
  obtain ⟨hscoped, rfl⟩ := Compiler.compileProgram_eq_ok_iff.1 h
  obtain ⟨hknown, hn, hreads⟩ := scoped_iff.1 hscoped
  have hdeclared : ∀ before s after, p.stmts = before ++ s :: after →
      ∀ x ∈ s.reads, x.text ∈ declared (before ++ [s]) := by
    intro before s after hsplit x hx
    by_contra hnot
    exact hreads ⟨before, s, after, hsplit, x, hx, hnot⟩
  have hwords : ∀ before s after, p.stmts = before ++ s :: after →
      stackGrowth ((groups c.target (declared p.stmts) 0 p.stmts).take before.length).flatten =
        (lets before).length := by
    intro before s after hsplit
    rw [hsplit, take_groups, stackGrowth_groups]
    exact fun s' hs' => hknown s' (by simp [hsplit, hs'])
  refine ⟨groups c.target (declared p.stmts) 0 p.stmts, ?_, ?_, length_groups _ _, ?_, hwords, ?_⟩
  · rw [flatten_groups, ← listing_eq_asmText, ← listing_ending, List.append_assoc c.target.header,
      ← listing_append]
    rfl
  · exact List.any_eq_true
  · intro before s after hsplit
    rw [hsplit] at hn ⊢
    refine ⟨_, getElem?_groups before s after, ?_⟩
    exact group_lines hn (hdeclared before s after hsplit) (hknown s (by simp [hsplit]))
  · intro before s after hsplit x hx
    rw [hwords before s after hsplit]
    rw [hsplit] at hn
    constructor
    · obtain ⟨d, hd⟩ := Stmt.Reach.exists (hdeclared before s after hsplit x hx)
      exact ⟨d, hd, fun d' hd' => (hd'.eq hn).trans (hd.eq hn).symm⟩
    · intro d hd
      rcases hd.bounds hx hn with ⟨hself, hneg⟩ | ⟨hself, hpos, hlt⟩
      · exact ⟨⟨fun _ => hself, fun _ => hneg⟩, fun _ => hself, fun _ => by omega⟩
      · exact ⟨⟨fun _ => by omega, fun hs => absurd hs hself⟩, fun _ => by omega,
          fun hs => absurd hs hself⟩

/-- The word of `a` is one word from the top behind the declaration of `z`, although an exit lies
in between as well. The declaration of `z` reads itself. -/
theorem exit_between_moves_no_word :
    ∃ p : Program, p.stmts = [
        .declare ⟨0, 10⟩ ⟨⟨4, 5⟩, utf8 "a"⟩ (.literal ⟨8, 9⟩ (utf8 "7")),
        .exit ⟨10, 18⟩ (.var ⟨⟨15, 16⟩, utf8 "a"⟩),
        .declare ⟨18, 28⟩ ⟨⟨22, 23⟩, utf8 "z"⟩ (.var ⟨⟨26, 27⟩, utf8 "z"⟩),
        .exit ⟨28, 36⟩ (.var ⟨⟨33, 34⟩, utf8 "a"⟩)] ∧
      ∃ (o : Object) (groups : List (List Bytes)),
        Compiler.compileProgram ⟨.linux, utf8 "a.asm"⟩ p = .ok o ∧ o.exited ∧ groups.length = 4 ∧
        o.text = Target.linux.header ++ asmText groups.flatten ++ asmText [] ++
          Target.linux.trailer (utf8 "a.asm") ∧
        groups[2]? = some [utf8 "push QWORD [rsp + -8]"] ∧
        groups[3]? = some [utf8 "push QWORD [rsp + 8]", utf8 "mov rax, 60", utf8 "pop rdi",
          utf8 "syscall"] := by
  refine ⟨⟨_⟩, rfl, ?_⟩
  generalize hrun : Compiler.compileProgram _ _ = run
  have hok : run.isOk := by rw [← hrun]; decide +kernel
  cases run with
  | error e => cases hok
  | ok o =>
    obtain ⟨groups, hform⟩ := compiled_text_in_closed_form _ hrun
    refine ⟨o, groups, rfl, hform.exited.2 ⟨_, .tail _ (.head _), rfl⟩, hform.length,
      hform.text, ?_, ?_⟩
    · obtain ⟨group, hgroup, hlines⟩ := hform.lines [_, _] _ [_] rfl
      have hunique := (hform.reach [_, _] _ [_] rfl _ (List.mem_singleton.2 rfl)).1
      cases hlines with
      | declare hvalue =>
        cases hvalue with
        | var hd =>
          rw [hunique.unique hd (.itself rfl rfl)] at hgroup
          exact hgroup.trans (by decide +kernel)
    · obtain ⟨group, hgroup, hlines⟩ := hform.lines [_, _, _] _ [] rfl
      have hunique := (hform.reach [_, _, _] _ [] rfl _ (List.mem_singleton.2 rfl)).1
      cases hlines with
      | exit hstatus =>
        cases hstatus with
        | var hd =>
          rw [hunique.unique hd (.earlier (List.nil_append _).symm rfl)] at hgroup
          exact hgroup.trans (by decide +kernel)

end LetExit
