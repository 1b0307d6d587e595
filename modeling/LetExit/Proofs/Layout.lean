import LetExit.Proofs.Lexing

/-!
# Texts laid out from lexemes

A text can be written from lexemes by putting blanks behind each of them. If
no lexeme runs into what is written after it, reading the text finds exactly
these lexemes again, each at the place where it was written.
-/

set_option autoImplicit false

namespace LetExit

open Lexer

abbrev Layout := List (Lexeme × Bytes)

namespace Layout

def text : Layout → Bytes
  | [] => []
  | (l, gap) :: rest => l.spelling ++ gap ++ text rest

def tokens (pos : Nat) : Layout → List Token
  | [] => []
  | (l, gap) :: rest => l.token pos :: tokens (pos + l.spelling.length + gap.length) rest

/-- The lexemes stay apart when `tail` is written behind the layout. -/
def Separate : Layout → Bytes → Prop
  | [], _ => True
  | (l, gap) :: rest, tail =>
    l.WellFormed ∧ (∀ b ∈ gap, isSpace b) ∧ l.EndsBefore (gap ++ text rest ++ tail) ∧
      Separate rest tail

theorem text_append (a b : Layout) : text (a ++ b) = text a ++ text b := by
  induction a with
  | nil => rfl
  | cons x a ih => simp [text, ih]

theorem tokens_append (a b : Layout) (pos : Nat) :
    tokens pos (a ++ b) = tokens pos a ++ tokens (pos + (text a).length) b := by
  induction a generalizing pos with
  | nil => rfl
  | cons x a ih =>
    simp only [List.cons_append, tokens, ih, text, List.length_append]
    congr 3
    omega

theorem separate_append {a b : Layout} {tail : Bytes} (ha : Separate a (text b ++ tail))
    (hb : Separate b tail) : Separate (a ++ b) tail := by
  induction a with
  | nil => exact hb
  | cons x a ih =>
    obtain ⟨hl, hgap, hend, hrest⟩ := ha
    refine ⟨hl, hgap, ?_, ih hrest⟩
    show x.1.EndsBefore (x.2 ++ text (a ++ b) ++ tail)
    rw [text_append]
    simpa using hend

theorem reads_gap {gap rest : Bytes} {pos : Nat} {toks : List Token} (hgap : ∀ b ∈ gap, isSpace b)
    (h : Reads (pos + gap.length) rest toks) : Reads pos (gap ++ rest) toks := by
  induction gap generalizing pos with
  | nil => exact h
  | cons b gap ih =>
    refine .space (hgap b (by simp)) (ih (fun c hc => hgap c (by simp [hc])) ?_)
    rw [List.length_cons] at h
    rwa [show pos + 1 + gap.length = pos + (gap.length + 1) by omega]

/-- What is laid out apart is read back token by token, whatever tokens follow. -/
theorem reads_append {layout : Layout} {tail : Bytes} {pos : Nat} {toks : List Token}
    (h : Separate layout tail) (htail : Reads (pos + (text layout).length) tail toks) :
    Reads pos (text layout ++ tail) (tokens pos layout ++ toks) := by
  induction layout generalizing pos with
  | nil => exact htail
  | cons x layout ih =>
    obtain ⟨l, gap⟩ := x
    obtain ⟨hl, hgap, hend, hrest⟩ := h
    simp only [text, List.append_assoc, tokens, List.cons_append] at hend htail ⊢
    refine .lexeme hl hend (reads_gap hgap (ih hrest ?_))
    simp only [List.length_append] at htail
    rwa [show pos + l.spelling.length + gap.length + (text layout).length =
      pos + (l.spelling.length + (gap.length + (text layout).length)) by omega]

theorem lex_text {layout : Layout} (h : Separate layout []) :
    lex (text layout) = .ok (tokens 0 layout) := by
  have hreads : Reads 0 (text layout ++ []) (tokens 0 layout ++ []) := reads_append h (.nil _)
  simpa only [List.append_nil, ← lex_eq_ok_iff] using hreads

end Layout

end LetExit
