import LetExit.Assembly.Codegen
import LetExit.Assembly.Machine

/-!
# Reading assembly text back

An assembly text is read line by line. Its instructions stand between the
line of the entry label and the first empty line behind it. A line is cut
into words at its blanks, and the words name the instruction. What was
written from instructions whose names and numbers hold no blank or newline
is read back exactly, so such a listing determines its instructions.
-/

set_option autoImplicit false

namespace LetExit

namespace Bytes

def decimal (digits : Bytes) : Nat :=
  digits.foldl (fun n b => Word.shiftIn 10 n (b.toNat - 48)) 0

def toNat? (bs : Bytes) : Option Nat :=
  if bs ≠ [] ∧ bs.all Lexer.isDigit then some (decimal bs) else none

def toInt? : Bytes → Option Int
  | [] => none
  | b :: digits =>
    if b = dash then (toNat? digits).map fun n => -(n : Int)
    else (toNat? (b :: digits)).map fun n => (n : Int)

theorem toNat_digit {n : Nat} (h : n < 10) : (UInt8.ofNat (48 + n)).toNat = 48 + n := by
  rw [UInt8.toNat_ofNat']
  omega

theorem isDigit_digit {n : Nat} (h : n < 10) : Lexer.isDigit (UInt8.ofNat (48 + n)) = true := by
  simp only [Lexer.isDigit, Bool.and_eq_true, decide_eq_true_eq, UInt8.le_iff_toNat_le,
    toNat_digit h, UInt8.reduceToNat]
  omega

theorem ofNat_ne_nil (n : Nat) : ofNat n ≠ [] := by
  rw [ofNat]
  split <;> simp

theorem isDigit_ofNat (n : Nat) : ∀ b ∈ ofNat n, Lexer.isDigit b := by
  induction n using Nat.strongRecOn with
  | ind n ih =>
    rw [ofNat]
    split
    · rename_i h
      intro b hb
      rw [List.mem_singleton.1 hb]
      exact isDigit_digit h
    · intro b hb
      rcases List.mem_append.1 hb with hb | hb
      · exact ih (n / 10) (by omega) b hb
      · rw [List.mem_singleton.1 hb]
        exact isDigit_digit (by omega)

theorem decimal_ofNat (n : Nat) : decimal (ofNat n) = n := by
  induction n using Nat.strongRecOn with
  | ind n ih =>
    rw [ofNat]
    split
    · rename_i h
      simp only [decimal, List.foldl_cons, List.foldl_nil, Word.shiftIn, toNat_digit h]
      omega
    · have hdiv := ih (n / 10) (by omega)
      simp only [decimal, List.foldl_append, List.foldl_cons, List.foldl_nil, Word.shiftIn,
        toNat_digit (show n % 10 < 10 by omega)] at hdiv ⊢
      rw [hdiv]
      omega

theorem toNat?_ofNat (n : Nat) : toNat? (ofNat n) = some n := by
  rw [toNat?, if_pos ⟨ofNat_ne_nil n, List.all_eq_true.2 (isDigit_ofNat n)⟩, decimal_ofNat]

theorem toInt?_ofInt (z : Int) : toInt? (ofInt z) = some z := by
  cases z with
  | negSucc n =>
    rw [ofInt, toInt?, if_pos rfl, toNat?_ofNat]
    rfl
  | ofNat n =>
    cases h : ofNat n with
    | nil => exact absurd h (ofNat_ne_nil n)
    | cons b digits =>
      have hb : b ≠ dash := by
        rintro rfl
        exact absurd (isDigit_ofNat n dash (by simp [h])) (by decide)
      rw [ofInt, h, toInt?, if_neg hb, ← h, toNat?_ofNat]
      rfl

def Plain (bs : Bytes) : Prop := bs ≠ [] ∧ blank ∉ bs ∧ newline ∉ bs

instance (bs : Bytes) : Decidable (Plain bs) := inferInstanceAs (Decidable (_ ∧ _))

theorem Plain.append {bs rest : Bytes} (h : Plain bs) (hrest : Plain rest) : Plain (bs ++ rest) :=
  ⟨by simp [h.1], by simp [h.2.1, hrest.2.1], by simp [h.2.2, hrest.2.2]⟩

theorem plain_of_isDigit {bs : Bytes} (hne : bs ≠ []) (h : ∀ b ∈ bs, Lexer.isDigit b) :
    Plain bs :=
  ⟨hne, fun hb => absurd (h _ hb) (by decide), fun hb => absurd (h _ hb) (by decide)⟩

theorem plain_ofInt (z : Int) : Plain (ofInt z) := by
  cases z with
  | ofNat n => exact plain_of_isDigit (ofNat_ne_nil n) (isDigit_ofNat n)
  | negSucc n =>
    have hdash : Plain [dash] := by decide
    exact hdash.append (plain_of_isDigit (ofNat_ne_nil (n + 1)) (isDigit_ofNat (n + 1)))

def words (line : Bytes) : List Bytes := (split blank line).filter (!·.isEmpty)

theorem words_append (bs rest : Bytes) : words (bs ++ blank :: rest) = words bs ++ words rest := by
  rw [words, split_append, List.filter_append]
  rfl

theorem Plain.words {bs : Bytes} (h : Plain bs) : Bytes.words bs = [bs] := by
  rw [Bytes.words, split_of_not_mem h.2.1]
  simp [h.1]

theorem words_join {ws : List Bytes} (h : ∀ w ∈ ws, Plain w) : words (join [blank] ws) = ws := by
  induction ws with
  | nil => rfl
  | cons w ws ih =>
    cases ws with
    | nil => exact (h w (by simp)).words
    | cons w' ws =>
      rw [join, List.append_assoc, List.singleton_append, words_append, (h w (by simp)).words,
        ih fun v hv => h v (by simp [hv])]
      · rfl
      · simp

theorem newline_not_mem_join {ws : List Bytes} (h : ∀ w ∈ ws, Plain w) :
    newline ∉ join [blank] ws := by
  induction ws with
  | nil => simp [join]
  | cons w ws ih =>
    have hw := (h w (by simp)).2.2
    cases ws with
    | nil => exact hw
    | cons w' ws =>
      have hrest := ih fun v hv => h v (by simp [hv])
      simp only [join, List.mem_append, List.mem_singleton, not_or]
      exact ⟨⟨hw, by decide⟩, hrest⟩

end Bytes

open Bytes

namespace Instr

def comma : UInt8 := 44
def opening : UInt8 := 91
def closing : UInt8 := 93

def ofWords? : List Bytes → Option Instr
  | [mnemonic] => if mnemonic = utf8 "syscall" then some .syscall else none
  | [mnemonic, reg] =>
    if mnemonic = utf8 "push" then some (.push (.reg ⟨reg⟩))
    else if mnemonic = utf8 "pop" then some (.pop ⟨reg⟩)
    else none
  | [mnemonic, out, imm] =>
    if mnemonic = utf8 "mov" ∧ out.getLast? = some comma then some (.mov ⟨out.dropLast⟩ imm)
    else none
  | [mnemonic, size, base, sign, disp] =>
    if mnemonic = utf8 "push" ∧ size = utf8 "QWORD" ∧ base.head? = some opening ∧
        sign = utf8 "+" ∧ disp.getLast? = some closing then
      (toInt? disp.dropLast).map fun d => .push (.mem ⟨base.tail⟩ d)
    else none
  | _ => none

def read? (line : Bytes) : Option Instr := ofWords? (words line)

def Plain : Instr → Prop
  | .mov out imm => Bytes.Plain out.name ∧ Bytes.Plain imm
  | .push (.reg r) => Bytes.Plain r.name
  | .push (.mem base _) => Bytes.Plain base.name
  | .pop out => Bytes.Plain out.name
  | .syscall => True

def toWords : Instr → List Bytes
  | .mov out imm => [utf8 "mov", out.name ++ [comma], imm]
  | .push (.reg r) => [utf8 "push", r.name]
  | .push (.mem base disp) =>
    [utf8 "push", utf8 "QWORD", opening :: base.name, utf8 "+", ofInt disp ++ [closing]]
  | .pop out => [utf8 "pop", out.name]
  | .syscall => [utf8 "syscall"]

theorem text_eq_join (i : Instr) : i.text = join [blank] i.toWords := by
  cases i with
  | mov out imm =>
    simp [text, toWords, join, blank, comma, show utf8 "mov " = utf8 "mov" ++ [32] from rfl,
      show utf8 ", " = [44, 32] from rfl]
  | push operand =>
    cases operand with
    | reg r => simp [text, toWords, join, blank, Operand.text, show utf8 "push " = utf8 "push" ++ [32] from rfl]
    | mem base disp =>
      simp [text, toWords, join, blank, Operand.text, opening, closing,
        show utf8 "push " = utf8 "push" ++ [32] from rfl,
        show utf8 "QWORD [" = utf8 "QWORD" ++ [32, 91] from rfl,
        show utf8 " + " = [32, 43, 32] from rfl, show utf8 "+" = [43] from rfl,
        show utf8 "]" = [93] from rfl]
  | pop out => simp [text, toWords, join, blank, show utf8 "pop " = utf8 "pop" ++ [32] from rfl]
  | syscall => rfl

theorem ofWords?_toWords (i : Instr) : ofWords? i.toWords = some i := by
  cases i with
  | mov out imm => simp [toWords, ofWords?]
  | push operand =>
    cases operand with
    | reg r => simp [toWords, ofWords?]
    | mem base disp => simp [toWords, ofWords?, toInt?_ofInt]
  | pop out => simp [toWords, ofWords?, show utf8 "pop" ≠ utf8 "push" by decide]
  | syscall => rfl

theorem Plain.toWords {i : Instr} (h : i.Plain) : ∀ w ∈ i.toWords, Bytes.Plain w := by
  cases i with
  | mov out imm =>
    have hout : Bytes.Plain (out.name ++ [comma]) := h.1.append (by decide)
    simp only [Instr.toWords, List.forall_mem_cons]
    exact ⟨by decide, hout, h.2, by simp⟩
  | push operand =>
    cases operand with
    | reg r =>
      simp only [Instr.toWords, List.forall_mem_cons]
      exact ⟨by decide, h, by simp⟩
    | mem base disp =>
      have hopen : Bytes.Plain [opening] := by decide
      simp only [Instr.toWords, List.forall_mem_cons]
      exact ⟨by decide, by decide, hopen.append h, by decide,
        (plain_ofInt disp).append (by decide), by simp⟩
  | pop out =>
    simp only [Instr.toWords, List.forall_mem_cons]
    exact ⟨by decide, h, by simp⟩
  | syscall => decide

theorem Plain.read?_eq {i : Instr} (h : i.Plain) : read? (indent ++ i.text) = some i := by
  have hindent : words (indent ++ i.text) = words i.text := by
    rw [show indent = [blank, blank, blank, blank] from rfl]
    simp only [List.cons_append, List.nil_append]
    iterate 4 rw [← List.nil_append (blank :: _), words_append]
    rfl
  rw [read?, hindent, text_eq_join, words_join h.toWords, ofWords?_toWords]

theorem Plain.newline_not_mem {i : Instr} (h : i.Plain) : newline ∉ indent ++ i.text := by
  rw [text_eq_join, List.mem_append, not_or]
  exact ⟨by decide, newline_not_mem_join h.toWords⟩

end Instr

namespace Codegen

def instructionLines (t : Target) (text : Bytes) : List Bytes :=
  (((split newline text).dropWhile (· != t.entry ++ utf8 ":")).drop 1).takeWhile (!·.isEmpty)

/-- The instructions of an assembly text; none if one of the lines is no instruction. -/
def instructions? (t : Target) (text : Bytes) : Option (List Instr) :=
  (instructionLines t text).mapM Instr.read?

theorem split_listing {code : List Instr} (h : ∀ i ∈ code, i.Plain) (rest : Bytes) :
    split newline (listing code ++ rest) =
      code.map (fun i => Instr.indent ++ i.text) ++ split newline rest := by
  induction code with
  | nil => rfl
  | cons i code ih =>
    have hrest := ih fun j hj => h j (by simp [hj])
    have hline : listing (i :: code) ++ rest =
        (Instr.indent ++ i.text) ++ newline :: (listing code ++ rest) := by
      simp [listing, Instr.line]
    rw [hline, split_append, hrest, split_of_not_mem (h i (by simp)).newline_not_mem]
    rfl

def preamble (t : Target) : List Bytes :=
  [utf8 "; NASM output", utf8 "bits 64", utf8 "section .text",
    Instr.indent ++ utf8 "global " ++ t.entry]

theorem split_header {t : Target} (h : newline ∉ t.entry) (rest : Bytes) :
    split newline (t.header ++ rest) =
      preamble t ++ (t.entry ++ utf8 ":") :: split newline rest := by
  have hlines : t.header ++ rest = utf8 "; NASM output" ++ newline :: (utf8 "bits 64" ++
      newline :: (utf8 "section .text" ++ newline :: ((Instr.indent ++ utf8 "global " ++ t.entry) ++
      newline :: ((t.entry ++ utf8 ":") ++ newline :: rest)))) := by
    rw [Target.header, show utf8 "; NASM output\nbits 64\nsection .text\n" =
        utf8 "; NASM output" ++ newline :: (utf8 "bits 64" ++ newline ::
          (utf8 "section .text" ++ [newline])) from rfl,
      show utf8 "\n" = [newline] from rfl, show utf8 ":\n" = utf8 ":" ++ [newline] from rfl]
    simp only [List.append_assoc, List.cons_append, List.nil_append]
  have hglobal : newline ∉ Instr.indent ++ utf8 "global " ++ t.entry := by
    rw [List.mem_append, not_or]
    exact ⟨by decide, h⟩
  have hlabel : newline ∉ t.entry ++ utf8 ":" := by
    rw [List.mem_append, not_or]
    exact ⟨h, by decide⟩
  rw [hlines]
  simp only [split_append, split_of_not_mem (show newline ∉ utf8 "; NASM output" by decide),
    split_of_not_mem (show newline ∉ utf8 "bits 64" by decide),
    split_of_not_mem (show newline ∉ utf8 "section .text" by decide),
    split_of_not_mem hglobal, split_of_not_mem hlabel]
  rfl

theorem registered_entry : ∀ t ∈ Target.all, newline ∉ t.entry ∧
    ∀ line ∈ preamble t, line ≠ t.entry ++ utf8 ":" := by
  decide

theorem mapM_read? {code : List Instr} (h : ∀ i ∈ code, i.Plain) :
    (code.map fun i => Instr.indent ++ i.text).mapM Instr.read? = some code := by
  induction code with
  | nil => rfl
  | cons i code ih =>
    rw [List.map_cons, List.mapM_cons, (h i (by simp)).read?_eq,
      ih fun j hj => h j (by simp [hj])]
    rfl

/-- The instructions that a text was written from can be read off it. -/
theorem instructions?_eq {t : Target} {code : List Instr} (ht : t ∈ Target.all)
    (h : ∀ i ∈ code, i.Plain) (path : Bytes) :
    instructions? t (t.header ++ listing code ++ t.trailer path) = some code := by
  obtain ⟨hentry, hpreamble⟩ := registered_entry t ht
  have hlines : instructionLines t (t.header ++ listing code ++ t.trailer path) =
      code.map fun i => Instr.indent ++ i.text := by
    rw [instructionLines, List.append_assoc, split_header hentry, split_listing h, Target.trailer,
      ← List.nil_append (newline :: _), split_append,
      List.dropWhile_append_of_pos (fun line hline => by simpa using hpreamble line hline)]
    rw [List.dropWhile_cons, bne_self_eq_false, if_neg Bool.false_ne_true, List.drop_succ_cons,
      List.drop_zero]
    rw [List.takeWhile_append_of_pos]
    · simp [split]
    · intro line hline
      obtain ⟨i, -, rfl⟩ := List.mem_map.1 hline
      rfl
  rw [instructions?, hlines, mapM_read? h]

end Codegen

end LetExit
