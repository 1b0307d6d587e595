import LetExit.Program.Semantics
import LetExit.Proofs.Compilation

/-!
# Compiled programs do what programs mean

A run of the compiled code keeps the words of the declared names on the
stack, each at the address of its slot, while nothing below the stack pointer
is touched. So every read finds the value that the name has in the
environment, and a declaration that reads its own name finds the word that
memory held there from the start. The run comes to the first exit of the
program, or to the exit added behind its last statement.
-/

set_option autoImplicit false

namespace LetExit

open Lexer Codegen

namespace Machine

def address (m : Machine) (slot : Nat) : Int := m.rsp - wordSize * (slot + 1)

def stale (m : Machine) (slot : Nat) : Word := m.mem (m.address slot)

theorem step_mov_rax (m : Machine) {imm : Bytes} {w : Word} (h : Word.ofImmediate? imm = some w) :
    m.step (.mov .rax imm) = some { m with rax := w } := by
  rw [step, h]
  rfl

theorem step_mov_rdi (m : Machine) {imm : Bytes} {w : Word} (h : Word.ofImmediate? imm = some w) :
    m.step (.mov .rdi imm) = some { m with rdi := w } := by
  rw [step, h]
  rfl

theorem step_push_rsp (m : Machine) (disp : Int) :
    m.step (.push (.mem .rsp disp)) = some (m.push (m.mem (m.rsp + disp))) := rfl

theorem step_pop_rdi (m : Machine) :
    m.step (.pop .rdi) = some { m with rdi := m.mem m.rsp, rsp := m.rsp + wordSize } := rfl

theorem atCall_cons (m : Machine) {i : Instr} (h : i ≠ .syscall) (rest : List Instr) :
    m.atCall (i :: rest) = (m.step i).bind fun m => m.atCall rest := by
  rw [atCall]
  exact h

theorem push_mem_top (m : Machine) (w : Word) : (m.push w).mem (m.push w).rsp = w := if_pos rfl

end Machine

theorem lookup_cons_of_ne {x y : Bytes} (w : Word) (env : Env) (h : y ≠ x) :
    ((x, w) :: env : Env).lookup y = env.lookup y := by
  rw [List.lookup_cons, beq_false_of_ne h]

namespace Codegen

variable {m₀ m : Machine} {all names : List Bytes} {env : Env}

/-- The machine holds the value of each of the names where the code looks for it. -/
def Holds (m₀ : Machine) (all names : List Bytes) (env : Env) (m : Machine) : Prop :=
  ∀ x ∈ names, ∃ w, env.lookup x = some w ∧ m.mem (m₀.address (all.idxOf x)) = w

/-- The machine `m` was reached from `m₀` by code that declared the names in the environment. -/
structure Simulates (m₀ : Machine) (all names : List Bytes) (env : Env) (m : Machine) : Prop where
  depth : env.length = names.length
  top : m.rsp = m₀.rsp - wordSize * names.length
  holds : Holds m₀ all names env m
  untouched : ∀ a < m.rsp, m.mem a = m₀.mem a

theorem syscall_not_mem_load (e : Expr) (depth : Nat) : .syscall ∉ load all depth e := by
  cases e <;> simp [load]

theorem ofImmediate?_numeral {digits : Bytes} (h : IsNumeral digits) :
    Word.ofImmediate? digits = some (Word.ofDecimal digits) := by
  unfold Word.ofImmediate?
  exact if_pos ⟨h.1, List.all_eq_true.2 h.2⟩

theorem after_load {depth : Nat} {e : Expr} (hw : e.WellFormed) (hs : e.Scoped names)
    (htop : m.rsp = m₀.rsp - wordSize * depth) (hm : Holds m₀ all names env m) :
    ∃ r w, e.value env = some w ∧
      m.after (load all depth e) = some (Machine.push { m with rax := r } w) := by
  cases e with
  | foreign node => exact hw.elim
  | literal span digits =>
    refine ⟨Word.ofDecimal digits, Word.ofDecimal digits, rfl, ?_⟩
    rw [load, Machine.after, m.step_mov_rax (ofImmediate?_numeral hw)]
    rfl
  | var x =>
    obtain ⟨w, hlookup, hmem⟩ := hm x.text hs
    refine ⟨m.rax, w, hlookup, ?_⟩
    have haddr : m.rsp + ((depth : Int) - all.idxOf x.text - 1) * wordSize =
        m₀.address (all.idxOf x.text) := by
      rw [htop, Machine.address]
      simp only [wordSize]
      omega
    rw [load, Machine.after, m.step_push_rsp, haddr, hmem]
    rfl

/-- The code of an expression pushes its value and leaves the rest to the code behind it. -/
theorem atCall_load {depth : Nat} {e : Expr} (hw : e.WellFormed) (hs : e.Scoped names)
    (htop : m.rsp = m₀.rsp - wordSize * depth) (hm : Holds m₀ all names env m) :
    ∃ r w, e.value env = some w ∧ ∀ more,
      m.atCall (load all depth e ++ more) = (Machine.push { m with rax := r } w).atCall more := by
  obtain ⟨r, w, hvalue, hload⟩ := after_load hw hs htop hm
  refine ⟨r, w, hvalue, fun more => ?_⟩
  rw [Machine.atCall_append _ _ _ (syscall_not_mem_load e depth), hload, Option.bind_some]

theorem holds_self {x : Bytes} (h : Simulates m₀ all names env m)
    (hx : all.idxOf x = names.length) (hnew : x ∉ names) :
    Holds m₀ all (names ++ [x]) ((x, m₀.stale env.length) :: env) m := by
  intro y hy
  rcases List.mem_append.1 hy with hy | hy
  · obtain ⟨w, hlookup, hmem⟩ := h.holds y hy
    have hne : y ≠ x := fun e => hnew (e ▸ hy)
    exact ⟨w, by rw [lookup_cons_of_ne _ _ hne, hlookup], hmem⟩
  · rw [List.mem_singleton.1 hy]
    refine ⟨_, List.lookup_cons_self, ?_⟩
    -- the word right below the stack pointer is still the initial one
    rw [hx, Machine.stale, h.depth]
    apply h.untouched
    rw [h.top, Machine.address]
    simp only [wordSize]
    omega

theorem simulates_push {x : Bytes} {r w : Word} (h : Simulates m₀ all names env m)
    (hpre : names <+: all) (hx : all.idxOf x = names.length) (hnew : x ∉ names) :
    Simulates m₀ all (names ++ [x]) ((x, w) :: env) (Machine.push { m with rax := r } w) where
  depth := by simp [h.depth]
  top := by
    show m.rsp - wordSize = _
    rw [h.top, List.length_append]
    simp only [wordSize, List.length_singleton]
    omega
  holds := by
    have htop : m.rsp - wordSize = m₀.address names.length := by
      rw [h.top, Machine.address]
      simp only [wordSize]
      omega
    intro y hy
    show ∃ v, _ ∧ (if m₀.address (all.idxOf y) = m.rsp - wordSize then w
      else m.mem (m₀.address (all.idxOf y))) = v
    rcases List.mem_append.1 hy with hy | hy
    · obtain ⟨v, hlookup, hmem⟩ := h.holds y hy
      have hne : y ≠ x := fun e => hnew (e ▸ hy)
      have hslot : all.idxOf y < names.length := by
        obtain ⟨rest, rfl⟩ := hpre
        rw [List.idxOf_append_of_mem hy]
        exact List.idxOf_lt_length_of_mem hy
      refine ⟨v, by rw [lookup_cons_of_ne _ _ hne, hlookup], ?_⟩
      rw [if_neg, hmem]
      rw [htop, Machine.address, Machine.address]
      simp only [wordSize]
      omega
    · rw [List.mem_singleton.1 hy]
      exact ⟨w, List.lookup_cons_self, if_pos (by rw [hx, htop])⟩
  untouched := by
    intro a ha
    have ha' : a < m.rsp - wordSize := ha
    show (if a = m.rsp - wordSize then w else m.mem a) = _
    rw [if_neg (by omega)]
    apply h.untouched
    simp only [wordSize] at ha'
    omega

theorem atCall_exitCall_pop {t : Target} {number : Word} (w : Word)
    (ht : Word.ofImmediate? t.exitNumber = some number) (rest : List Instr) :
    ∃ m', (m.push w).atCall (exitCall t (.pop .rdi) ++ rest) = some m' ∧ m'.rax = number ∧
      m'.rdi = w := by
  refine ⟨{ m.push w with rax := number, rdi := w, rsp := (m.push w).rsp + wordSize }, ?_, rfl, rfl⟩
  rw [exitCall, List.cons_append, Machine.atCall_cons _ (by simp), Machine.step_mov_rax _ ht,
    Option.bind_some, List.cons_append, Machine.atCall_cons _ (by simp), Machine.step_pop_rdi,
    Option.bind_some, m.push_mem_top]
  rfl

theorem atCall_exitCall_zero (m : Machine) {t : Target} {number : Word}
    (ht : Word.ofImmediate? t.exitNumber = some number) :
    ∃ m', m.atCall (exitCall t (.mov .rdi (utf8 "0"))) = some m' ∧ m'.rax = number ∧
      m'.rdi = 0 := by
  have hzero : Word.ofImmediate? (utf8 "0") = some 0 := rfl
  refine ⟨{ m with rax := number, rdi := 0 }, ?_, rfl, rfl⟩
  rw [exitCall, Machine.atCall_cons _ (by simp), Machine.step_mov_rax _ ht, Option.bind_some,
    Machine.atCall_cons _ (by simp), Machine.step_mov_rdi _ hzero]
  rfl

/-- Code that is in step with the statements left comes to an exit call, with the status that
they mean. -/
theorem atCall_body {t : Target} {number : Word} {before ss : List Stmt}
    (ht : Word.ofImmediate? t.exitNumber = some number) (hw : ∀ s ∈ ss, s.WellFormed)
    (hs : Scoped before ss) (hall : all = declared (before ++ ss))
    (h : Simulates m₀ all (declared before) env m) :
    ∃ m', m.atCall (body t all (declared before).length ss ++ ending t (ss.any Stmt.isExit)) =
        some m' ∧ m'.rax = number ∧ statusFrom m₀.stale env ss = some m'.rdi := by
  induction ss generalizing before env m with
  | nil =>
    obtain ⟨m', hcall, hrax, hrdi⟩ := atCall_exitCall_zero m ht
    exact ⟨m', hcall, hrax, by rw [hrdi]; rfl⟩
  | cons s ss ih =>
    have hws := hw s (by simp)
    cases s with
    | foreign node => exact hws.elim
    | exit span status =>
      obtain ⟨r, w, hvalue, hload⟩ := atCall_load hws hs.1 h.top h.holds
      obtain ⟨m', hcall, hrax, hrdi⟩ := atCall_exitCall_pop w ht (body t all
        ((declared before).length + (lets [.exit span status]).length) ss)
      refine ⟨m', ?_, hrax, by rw [hrdi]; exact hvalue⟩
      simp only [body, group, ending, List.any_cons, Stmt.isExit, Bool.true_or, if_true,
        List.append_nil, List.append_assoc, hload]
      exact hcall
    | declare span x value =>
      have hidx : all.idxOf x.text = (declared before).length := by
        rw [hall, idxOf_declared span value hs.1.1]
      have hpre : declared before <+: all := by
        rw [hall, declared_append]
        exact List.prefix_append _ _
      obtain ⟨r, w, hvalue, hload⟩ :=
        atCall_load hws.2 hs.1.2 h.top (holds_self h hidx hs.1.1)
      have hnext : Simulates m₀ all (declared (before ++ [.declare span x value]))
          ((x.text, w) :: env) (Machine.push { m with rax := r } w) := by
        rw [declared_append]
        exact simulates_push h hpre hidx hs.1.1
      obtain ⟨m', hcall, hrax, hstatus⟩ := ih (fun s' hs' => hw s' (by simp [hs'])) hs.2
        (by rw [hall, List.append_assoc, List.singleton_append]) hnext
      refine ⟨m', ?_, hrax, ?_⟩
      · rw [declared_append, List.length_append] at hcall
        simp only [body, group, List.any_cons, Stmt.isExit, Bool.false_or, List.append_assoc,
          hload]
        exact hcall
      · simp only [statusFrom, hvalue]
        exact hstatus

theorem simulates_start (m : Machine) (all : List Bytes) : Simulates m all [] [] m where
  depth := rfl
  top := by simp
  holds := by simp [Holds]
  untouched := fun _ _ => rfl

theorem registered_number : ∀ t ∈ Target.all, (Word.ofImmediate? t.exitNumber).isSome := by
  decide

end Codegen

/-- The instructions of an assembly text compiled from a source text, run on any machine, come
to a system call. It is the exit call of the target, and its status is the one that the program
means, where a declaration that reads its own name gets the word that memory held in its slot
when the run started. -/
theorem compiled_text_exits_with_status {t : Target} (ht : t ∈ Target.all) {output text : Bytes}
    {o : Object} (h : Source.compile ⟨t, output⟩ text = .ok o) (m : Machine) :
    ∃ p code m', Source.program text = .ok p ∧ instructions? t o.text = some code ∧
      m.atCall code = some m' ∧ Word.ofImmediate? t.exitNumber = some m'.rax ∧
      p.status (fun slot => m.mem (m.rsp - wordSize * (slot + 1))) = some m'.rdi := by
  obtain ⟨p, hp, hscoped, rfl⟩ := Source.compile_eq_ok_iff.1 h
  have hw := Source.program_wellFormed hp
  obtain ⟨number, hnumber⟩ := Option.isSome_iff_exists.1 (registered_number t ht)
  obtain ⟨m', hcall, hrax, hstatus⟩ := atCall_body hnumber hw hscoped rfl
    (simulates_start m (declared ([] ++ p.stmts)))
  have hcode : instructions? t (Compiler.objectOf ⟨t, output⟩ p).text = some (p.code t) :=
    instructions?_objectOf (c := ⟨t, output⟩) ht hw
  exact ⟨p, p.code t, m', hp, hcode, hcall, by rw [hnumber, hrax], hstatus⟩

theorem self_reference_exits_with_stale_word :
    ∃ o, Source.compile ⟨.linux, utf8 "./out.asm"⟩ (utf8 "jen x = 7; jen z = z; finu(z);") = .ok o ∧
      ∀ m : Machine, ∃ code m', instructions? .linux o.text = some code ∧
        m.atCall code = some m' ∧ m'.rax = 60 ∧ m'.rdi = m.mem (m.rsp - 16) := by
  have hprogram : Source.program (utf8 "jen x = 7; jen z = z; finu(z);") = .ok
      ⟨[.declare ⟨0, 10⟩ ⟨⟨4, 5⟩, utf8 "x"⟩ (.literal ⟨8, 9⟩ (utf8 "7")),
        .declare ⟨11, 21⟩ ⟨⟨15, 16⟩, utf8 "z"⟩ (.var ⟨⟨19, 20⟩, utf8 "z"⟩),
        .exit ⟨22, 30⟩ (.var ⟨⟨27, 28⟩, utf8 "z"⟩)]⟩ := by decide +kernel
  have hok : (Source.compile ⟨.linux, utf8 "./out.asm"⟩
      (utf8 "jen x = 7; jen z = z; finu(z);")).isOk := by decide +kernel
  cases ho : Source.compile ⟨.linux, utf8 "./out.asm"⟩ (utf8 "jen x = 7; jen z = z; finu(z);") with
  | error e => rw [ho] at hok; cases hok
  | ok o =>
    refine ⟨o, rfl, fun m => ?_⟩
    obtain ⟨p, code, m', hp, hcode, hcall, hrax, hstatus⟩ :=
      compiled_text_exits_with_status (by decide) ho m
    rw [hprogram] at hp
    cases hp
    refine ⟨code, m', hcode, hcall, ?_, ?_⟩
    · exact Option.some.inj (hrax.symm.trans (by decide))
    · have hstale : some (m.mem (m.rsp - 16)) = some m'.rdi := hstatus
      exact (Option.some.inj hstale).symm

end LetExit
