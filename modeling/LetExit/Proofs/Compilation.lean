import LetExit.Proofs.SourcePrograms
import LetExit.Proofs.Generation
import LetExit.Proofs.AssemblyText

/-!
# From source text to assembly text

A source text compiles exactly if it spells a program whose names are in
scope. For the registered targets the text it compiles to can be read back as
the code of that program, since numerals and the targets' exit numbers are
single words.
-/

set_option autoImplicit false

namespace LetExit

open Lexer Codegen

theorem Source.compile_eq_ok_iff {c : Compiler} {text : Bytes} {o : Object} :
    Source.compile c text = .ok o ↔
      ∃ p, Source.program text = .ok p ∧ Scoped [] p.stmts ∧ o = c.objectOf p := by
  unfold Source.compile
  cases Source.program text with
  | error e => simp
  | ok p => simp [Source.mapError_eq_ok_iff, Compiler.compileProgram_eq_ok_iff]

theorem Lexer.IsNumeral.plain {digits : Bytes} (h : IsNumeral digits) : Bytes.Plain digits :=
  Bytes.plain_of_isDigit h.1 h.2

theorem registered_exitNumber : ∀ t ∈ Target.all, Bytes.Plain t.exitNumber := by
  decide

theorem plain_rax : Bytes.Plain Reg.rax.name := by decide

theorem plain_rdi : Bytes.Plain Reg.rdi.name := by decide

theorem plain_rsp : Bytes.Plain Reg.rsp.name := by decide

theorem load_plain {names : List Bytes} {depth : Nat} {e : Expr} (h : e.WellFormed) :
    ∀ i ∈ load names depth e, i.Plain := by
  cases e with
  | literal span digits =>
    simp only [load, List.forall_mem_cons]
    exact ⟨⟨plain_rax, h.plain⟩, plain_rax, by simp⟩
  | var x =>
    simp only [load, List.forall_mem_cons]
    exact ⟨plain_rsp, by simp⟩
  | foreign node => exact h.elim

theorem exitCall_plain {t : Target} {status : Instr} (ht : Bytes.Plain t.exitNumber)
    (hstatus : status.Plain) : ∀ i ∈ exitCall t status, i.Plain := by
  simp only [exitCall, List.forall_mem_cons]
  exact ⟨⟨plain_rax, ht⟩, hstatus, trivial, by simp⟩

theorem group_plain {t : Target} {names : List Bytes} {depth : Nat} {s : Stmt}
    (ht : Bytes.Plain t.exitNumber) (h : s.WellFormed) : ∀ i ∈ group t names depth s, i.Plain := by
  cases s with
  | declare span x value => exact load_plain h.2
  | exit span status =>
    exact List.forall_mem_append.2 ⟨load_plain h, exitCall_plain ht plain_rdi⟩
  | foreign node => exact h.elim

theorem body_plain {t : Target} {names : List Bytes} {depth : Nat} {ss : List Stmt}
    (ht : Bytes.Plain t.exitNumber) (h : ∀ s ∈ ss, s.WellFormed) :
    ∀ i ∈ body t names depth ss, i.Plain := by
  induction ss generalizing depth with
  | nil => simp [body]
  | cons s ss ih =>
    exact List.forall_mem_append.2
      ⟨group_plain ht (h s (by simp)), ih fun s' hs' => h s' (by simp [hs'])⟩

theorem Program.code_plain {t : Target} {p : Program} (ht : t ∈ Target.all) (h : p.WellFormed) :
    ∀ i ∈ p.code t, i.Plain := by
  have hexit := registered_exitNumber t ht
  refine List.forall_mem_append.2 ⟨body_plain hexit h, ?_⟩
  unfold ending
  split
  · simp
  · exact exitCall_plain hexit ⟨plain_rdi, by decide⟩

theorem instructions?_objectOf {c : Compiler} {p : Program} (ht : c.target ∈ Target.all)
    (h : p.WellFormed) : instructions? c.target (c.objectOf p).text = some (p.code c.target) :=
  instructions?_eq ht (Program.code_plain ht h) c.output

end LetExit
