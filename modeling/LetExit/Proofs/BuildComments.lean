import LetExit.Proofs.BuildProducts
import LetExit.Proofs.Generation

/-!
# The path in the build comments

The path of the assembly file is written into the comments that say how to
build it, and nowhere else. A comment ends with its line. So a path on one line
does not change the lines of code, as long as the line it is put on is a
comment, which the object format of the target decides. A path with a newline
in it breaks out of the comment.
-/

set_option autoImplicit false

namespace LetExit

namespace Bytes

theorem split_append_of_not_mem {separator : UInt8} {front : Bytes} (h : separator ∉ front)
    {bs field : Bytes} {fields : List Bytes} (hbs : split separator bs = field :: fields) :
    split separator (front ++ bs) = (front ++ field) :: fields := by
  induction front with
  | nil => exact hbs
  | cons b front ih =>
    have hb : b ≠ separator := fun e => h (by simp [e])
    rw [List.cons_append, split, ih fun hmem => h (.tail _ hmem)]
    simp [hb]

theorem split_append_of_last {separator : UInt8} {rest : Bytes} (h : separator ∉ rest)
    {bs field : Bytes} {fields : List Bytes} (hbs : split separator bs = fields ++ [field]) :
    split separator (bs ++ rest) = fields ++ [field ++ rest] := by
  induction bs generalizing field fields with
  | nil =>
    cases fields with
    | nil =>
      cases hbs
      exact split_of_not_mem h
    | cons f fields => simp [split] at hbs
  | cons b bs ih =>
    cases hsplit : split separator bs with
    | nil => exact absurd hsplit (split_ne_nil separator bs)
    | cons first others =>
      rw [split, hsplit] at hbs
      rw [List.cons_append, split]
      by_cases hb : b = separator
      · simp only [if_pos hb] at hbs ⊢
        cases fields with
        | nil => simp at hbs
        | cons f fields =>
          obtain ⟨rfl, hrest⟩ := List.cons.inj hbs
          rw [ih (hsplit.trans hrest)]
          cases fields <;> rfl
      · simp only [if_neg hb] at hbs ⊢
        cases fields with
        | nil =>
          cases hbs
          rw [ih (hsplit.trans (List.nil_append _).symm)]
          rfl
        | cons f fields =>
          obtain ⟨rfl, rfl⟩ := List.cons.inj hbs
          rw [ih (hsplit.trans (List.cons_append).symm)]
          rfl

theorem join_cons (separator field : Bytes) (fields : List Bytes) :
    join separator (field :: fields) = field ++ fields.flatMap (separator ++ ·) := by
  induction fields generalizing field with
  | nil => simp [join]
  | cons second fields ih =>
    rw [join, ih, List.flatMap_cons, List.append_assoc, List.append_assoc]
    simp

end Bytes

open Bytes Codegen

def isComment (line : Bytes) : Bool := line.head? == some 59

def isCode (line : Bytes) : Bool := !line.isEmpty && !isComment line

def codeLines (text : Bytes) : List Bytes := (split newline text).filter isCode

theorem codeLines_append (text rest : Bytes) :
    codeLines (text ++ newline :: rest) = codeLines text ++ codeLines rest := by
  rw [codeLines, split_append, List.filter_append]
  rfl

theorem isComment_append {line : Bytes} (h : isComment line) (rest : Bytes) :
    isComment (line ++ rest) := by
  cases line with
  | nil => cases h
  | cons b line => exact h

/-- A comment hides what stands behind it on its line, and nothing further on. -/
theorem codeLines_comment {comment : Bytes} (hcomment : isComment comment)
    (h : newline ∉ comment) (rest : Bytes) :
    codeLines (comment ++ rest) = (split newline rest).tail.filter isCode := by
  cases hrest : split newline rest with
  | nil => exact absurd hrest (split_ne_nil newline rest)
  | cons line lines =>
    rw [codeLines, split_append_of_not_mem h hrest, List.tail_cons,
      List.filter_cons_of_neg (by simp [isCode, isComment_append hcomment])]

theorem isCode_append_blank (line rest : Bytes) :
    isCode (line ++ blank :: rest) = !isComment line := by
  cases line with
  | nil => rfl
  | cons b line => rfl

namespace Target

/-! The command that assembles: the lines that newlines in the object format make of it. -/

def formatLines (t : Target) : List Bytes :=
  split newline (utf8 "; nasm -f " ++ t.objectFormat)

def pathLine (t : Target) : Bytes := t.formatLines.getLast (split_ne_nil _ _)

theorem formatLines_of_not_mem {t : Target} (h : newline ∉ t.objectFormat) :
    t.formatLines = [utf8 "; nasm -f " ++ t.objectFormat] := by
  apply split_of_not_mem
  rw [List.mem_append, not_or]
  exact ⟨by decide, h⟩

theorem isComment_pathLine {t : Target} (h : newline ∉ t.objectFormat) : isComment t.pathLine := by
  simp only [pathLine, formatLines_of_not_mem h, List.getLast_singleton]
  exact isComment_append (by decide) _

theorem codeLines_assemble (t : Target) {path : Bytes} (h : newline ∉ path) :
    codeLines (utf8 "; " ++ join [blank] (t.assemble path)) =
      t.formatLines.dropLast.filter isCode ++
        if isComment t.pathLine then [] else [t.pathLine ++ blank :: path] := by
  have htext : utf8 "; " ++ join [blank] (t.assemble path) =
      (utf8 "; nasm -f " ++ t.objectFormat) ++ blank :: path := by
    simp only [assemble, join, List.append_assoc, List.singleton_append]
    rfl
  have hblank : newline ∉ blank :: path := by
    rw [List.mem_cons, not_or]
    exact ⟨by decide, h⟩
  have hlast : t.formatLines = t.formatLines.dropLast ++ [t.pathLine] :=
    (List.dropLast_append_getLast _).symm
  rw [htext, codeLines, split_append_of_last hblank hlast, List.filter_append,
    List.filter_singleton, isCode_append_blank]
  cases isComment t.pathLine <;> rfl

/-! The command that links: the lines that newlines in its flags make of it. -/

def flagLines (t : Target) : List Bytes := (split newline (t.linkFlags.flatMap ([blank] ++ ·))).tail

theorem codeLines_link (t : Target) {path : Bytes} (h : newline ∉ path) :
    codeLines (utf8 "; " ++ join [blank] (t.link path)) = t.flagLines.filter isCode := by
  obtain ⟨hobject, hexecutable⟩ := Products.newline_not_mem_ofPath h
  have htext : utf8 "; " ++ join [blank] (t.link path) =
      (utf8 "; ld " ++ (Products.ofPath path).object ++ utf8 " -o " ++
        (Products.ofPath path).executable) ++ t.linkFlags.flatMap ([blank] ++ ·) := by
    simp only [link, List.cons_append, List.nil_append, join_cons, List.flatMap_cons,
      List.append_assoc]
    rfl
  rw [htext, flagLines]
  apply codeLines_comment
  · simp only [List.append_assoc]
    exact isComment_append (by decide) _
  · simp only [List.mem_append, not_or]
    exact ⟨⟨⟨by decide, hobject⟩, by decide⟩, hexecutable⟩

theorem codeLines_trailer (t : Target) {path : Bytes} (h : newline ∉ path) :
    codeLines (t.trailer path) = t.formatLines.dropLast.filter isCode ++
      (if isComment t.pathLine then [] else [t.pathLine ++ blank :: path]) ++
      t.flagLines.filter isCode := by
  have htrailer : t.trailer path = [] ++ newline :: ((utf8 "; " ++ join [blank] (t.assemble path)) ++
      newline :: ((utf8 "; " ++ join [blank] (t.link path)) ++ newline :: [])) := by
    simp [trailer, commands]
  rw [htrailer, codeLines_append, codeLines_append, codeLines_append, codeLines_assemble t h,
    codeLines_link t h]
  simp [codeLines, split, isCode]

theorem codeLines_trailer_eq_nil {t : Target} (hformat : newline ∉ t.objectFormat)
    (hflags : ∀ flag ∈ t.linkFlags, newline ∉ flag) {path : Bytes} (h : newline ∉ path) :
    codeLines (t.trailer path) = [] := by
  have hnone : newline ∉ t.linkFlags.flatMap ([blank] ++ ·) := by
    intro hmem
    obtain ⟨flag, hflag, hmem⟩ := List.mem_flatMap.1 hmem
    rcases List.mem_append.1 hmem with hmem | hmem
    · exact absurd hmem (by decide)
    · exact hflags flag hflag hmem
  rw [codeLines_trailer t h, formatLines_of_not_mem hformat, if_pos (isComment_pathLine hformat),
    flagLines, split_of_not_mem hnone]
  rfl

end Target

theorem codeLines_objectOf (c : Compiler) (p : Program) :
    codeLines (c.objectOf p).text =
      codeLines (c.target.header ++ listing (p.code c.target)) ++
        codeLines (c.target.trailer c.output) := by
  have hnone : codeLines [] = [] := rfl
  have htrailer := codeLines_append [] (c.target.trailer c.output).tail
  have hhead : [] ++ newline :: (c.target.trailer c.output).tail = c.target.trailer c.output := rfl
  rw [hhead, hnone, List.nil_append] at htrailer
  rw [htrailer, ← codeLines_append]
  rfl

/-- Two paths on one line give the same lines of code exactly if they are put on a comment, or are
the same path. -/
theorem codeLines_objectOf_eq_iff (t : Target) (p : Program) {a b : Bytes} (ha : newline ∉ a)
    (hb : newline ∉ b) :
    codeLines (Compiler.objectOf ⟨t, a⟩ p).text = codeLines (Compiler.objectOf ⟨t, b⟩ p).text ↔
      isComment t.pathLine ∨ a = b := by
  rw [codeLines_objectOf, codeLines_objectOf]
  dsimp only
  rw [List.append_cancel_left_eq, t.codeLines_trailer ha, t.codeLines_trailer hb,
    List.append_cancel_right_eq, List.append_cancel_left_eq]
  by_cases hcomment : isComment t.pathLine
  · simp [hcomment]
  · simp [hcomment]

/-- Any two paths on one line give the same lines of code, whatever the program, if the target
puts them on a line that is a comment, and otherwise they never do. Every target with an object
format on one line puts them on a comment, and if its flags are on one line as well, the build
comments hold no line of code. -/
theorem one_line_path_leaves_code_alone {c : Compiler} {p : Program} {o : Object}
    (h : c.compileProgram p = .ok o) :
    (∀ a b, newline ∉ a → newline ∉ b → ∃ oa ob,
      Compiler.compileProgram ⟨c.target, a⟩ p = .ok oa ∧
      Compiler.compileProgram ⟨c.target, b⟩ p = .ok ob ∧
      (codeLines oa.text = codeLines ob.text ↔ isComment c.target.pathLine ∨ a = b)) ∧
    (newline ∉ c.target.objectFormat → isComment c.target.pathLine) ∧
    (newline ∉ c.target.objectFormat → (∀ flag ∈ c.target.linkFlags, newline ∉ flag) →
      ∀ path, newline ∉ path → codeLines (c.target.trailer path) = []) := by
  obtain ⟨hscoped, -⟩ := Compiler.compileProgram_eq_ok_iff.1 h
  have hcompile (path : Bytes) := Compiler.compileProgram_of_scoped ⟨c.target, path⟩ hscoped
  refine ⟨fun a b ha hb => ?_, Target.isComment_pathLine, fun hformat hflags path hpath => ?_⟩
  · exact ⟨_, _, hcompile a, hcompile b, codeLines_objectOf_eq_iff c.target p ha hb⟩
  · exact Target.codeLines_trailer_eq_nil hformat hflags hpath

theorem one_line_paths_give_one_code :
    ∃ oa ob, Compiler.compileProgram ⟨.linux, utf8 "out.asm"⟩
        ⟨[.exit ⟨0, 8⟩ (.literal ⟨5, 6⟩ (utf8 "7"))]⟩ = .ok oa ∧
      Compiler.compileProgram ⟨.linux, utf8 "/tmp/a; b/out"⟩
        ⟨[.exit ⟨0, 8⟩ (.literal ⟨5, 6⟩ (utf8 "7"))]⟩ = .ok ob ∧
      oa.text ≠ ob.text ∧ codeLines oa.text = codeLines ob.text := by
  have hscoped : Scoped [] [.exit ⟨0, 8⟩ (.literal ⟨5, 6⟩ (utf8 "7"))] := ⟨trivial, trivial⟩
  have hcompile := Compiler.compileProgram_of_scoped ⟨.linux, utf8 "out.asm"⟩ hscoped
  obtain ⟨hpaths, hcomment, -⟩ := one_line_path_leaves_code_alone hcompile
  obtain ⟨oa, ob, hoa, hob, hlines⟩ :=
    hpaths (utf8 "out.asm") (utf8 "/tmp/a; b/out") (by decide) (by decide)
  refine ⟨oa, ob, hoa, hob, ?_, hlines.2 (.inl (hcomment (by decide)))⟩
  obtain rfl := Except.ok.inj (hcompile.symm.trans hoa)
  obtain rfl := Except.ok.inj ((Compiler.compileProgram_of_scoped _ hscoped).symm.trans hob)
  decide +kernel

/-- The text after the newline of a path is a line of code. -/
theorem newline_in_path_becomes_code :
    ¬∀ (t : Target) (p : Program) (a b : Bytes) (oa ob : Object),
      Compiler.compileProgram ⟨t, a⟩ p = .ok oa → Compiler.compileProgram ⟨t, b⟩ p = .ok ob →
      codeLines oa.text = codeLines ob.text := by
  intro h
  have hscoped : Scoped [] [] := trivial
  have hsame := h .linux ⟨[]⟩ (utf8 "a") (utf8 "a\nb") _ _
    (Compiler.compileProgram_of_scoped _ hscoped) (Compiler.compileProgram_of_scoped _ hscoped)
  have hline : utf8 "b" ∈ codeLines (Compiler.objectOf ⟨.linux, utf8 "a\nb"⟩ ⟨[]⟩).text := by
    decide +kernel
  rw [← hsame] at hline
  exact absurd hline (by decide +kernel)

end LetExit
