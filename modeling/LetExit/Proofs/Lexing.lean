import Mathlib.Tactic.SplitIfs
import LetExit.Token.Lexer

/-!
# Texts and their tokens

Reading takes lexemes off the front of a text. Here the same is said as a
relation: blanks are passed over, and a lexeme is taken where the byte behind
it does not belong to it. The relation holds exactly where reading succeeds,
so what tokens look like and where they stand follows by induction on it.
Reading fails exactly at the first byte that no text may hold.
-/

set_option autoImplicit false

namespace LetExit

namespace Lexer

def isMark (b : UInt8) : Bool := b == 40 || b == 41 || b == 59 || b == 61

def isLegal (b : UInt8) : Bool := isLetter b || isDigit b || isSpace b || isMark b

def IsWord : Bytes → Prop
  | [] => False
  | b :: rest => isLetter b ∧ ∀ c ∈ rest, isWordByte c

def IsName (bs : Bytes) : Prop := IsWord bs ∧ bs ≠ utf8 "finu" ∧ bs ≠ utf8 "jen"

def IsNumeral (bs : Bytes) : Prop := bs ≠ [] ∧ ∀ b ∈ bs, isDigit b

instance (bs : Bytes) : Decidable (IsWord bs) :=
  match bs with
  | [] => inferInstanceAs (Decidable False)
  | b :: rest => decidable_of_iff (isLetter b ∧ rest.all isWordByte) (by simp [IsWord])

instance (bs : Bytes) : Decidable (IsName bs) := inferInstanceAs (Decidable (_ ∧ _))

instance (bs : Bytes) : Decidable (IsNumeral bs) :=
  decidable_of_iff (bs ≠ [] ∧ bs.all isDigit) (by simp [IsNumeral])

/-- Each kind has its own spellings, and no text spells a kind outside the grammar. -/
def Lexeme.WellFormed (l : Lexeme) : Prop :=
  match l.kind with
  | .ident => IsName l.spelling
  | .intLit => IsNumeral l.spelling
  | .exit => l.spelling = utf8 "finu"
  | .letWord => l.spelling = utf8 "jen"
  | .openParen => l.spelling = [40]
  | .closeParen => l.spelling = [41]
  | .semi => l.spelling = [59]
  | .eq => l.spelling = [61]
  | .other _ _ => False

/-- The byte would belong to a lexeme of this kind if it stood right behind it. -/
def continues (kind : Kind) (b : UInt8) : Bool :=
  match kind with
  | .ident | .exit | .letWord => isWordByte b
  | .intLit => isDigit b
  | _ => false

def Lexeme.EndsBefore (l : Lexeme) (rest : Bytes) : Prop :=
  ∀ b, rest.head? = some b → continues l.kind b = false

def Lexeme.token (l : Lexeme) (pos : Nat) : Token :=
  ⟨l.kind, l.text, pos, (pos + l.spelling.length : Nat)⟩

/-- The text that starts at offset `pos` of its source has these tokens. -/
inductive Reads : Nat → Bytes → List Token → Prop where
  | nil (pos : Nat) : Reads pos [] []
  | space {pos : Nat} {b : UInt8} {rest : Bytes} {toks : List Token}
      (hb : isSpace b) (hrest : Reads (pos + 1) rest toks) : Reads pos (b :: rest) toks
  | lexeme {pos : Nat} {l : Lexeme} {rest : Bytes} {toks : List Token}
      (hl : l.WellFormed) (hend : l.EndsBefore rest)
      (hrest : Reads (pos + l.spelling.length) rest toks) :
      Reads pos (l.spelling ++ rest) (l.token pos :: toks)

/-! Each byte belongs to one class. -/

theorem isSpace_of_isLetter {b : UInt8} (h : isLetter b) : isSpace b = false := by
  grind [isLetter, isSpace]

theorem isSpace_of_isDigit {b : UInt8} (h : isDigit b) : isSpace b = false := by
  grind [isDigit, isSpace]

theorem isLetter_of_isDigit {b : UInt8} (h : isDigit b) : isLetter b = false := by
  grind [isDigit, isLetter]

theorem isLegal_of_isWordByte {b : UInt8} (h : isWordByte b) : isLegal b := by
  grind [isWordByte, isLegal]

theorem isLegal_of_isSpace {b : UInt8} (h : isSpace b) : isLegal b := by
  simp [isLegal, h]

theorem punctuation?_eq_none_iff {b : UInt8} : punctuation? b = none ↔ isMark b = false := by
  grind [punctuation?, isMark]

theorem IsNumeral.isDigit_head {b : UInt8} {rest : Bytes} (h : IsNumeral (b :: rest)) :
    isDigit b ∧ ∀ c ∈ rest, isDigit c :=
  ⟨h.2 b (by simp), fun c hc => h.2 c (by simp [hc])⟩

theorem isWord_finu : IsWord (utf8 "finu") := by decide

theorem isWord_jen : IsWord (utf8 "jen") := by decide

theorem wordKind_wellFormed {word : Bytes} (h : IsWord word) :
    Lexeme.WellFormed ⟨wordKind word, word⟩ := by
  unfold wordKind
  split
  · assumption
  · split
    · assumption
    · exact ⟨h, by assumption, by assumption⟩

theorem continues_wordKind (word : Bytes) : continues (wordKind word) = isWordByte := by
  unfold wordKind
  split
  · rfl
  · split <;> rfl

theorem head?_dropWhile {p : UInt8 → Bool} {bs : Bytes} {b : UInt8}
    (h : (bs.dropWhile p).head? = some b) : p b = false := by
  have hp := List.head?_dropWhile_not p bs
  rw [h] at hp
  exact hp

theorem takeWhile_append_of_head? {p : UInt8 → Bool} {bs rest : Bytes}
    (hbs : ∀ b ∈ bs, p b) (hrest : ∀ b, rest.head? = some b → p b = false) :
    (bs ++ rest).takeWhile p = bs := by
  rw [List.takeWhile_append_of_pos hbs]
  cases rest with
  | nil => simp
  | cons b rest => simp [hrest b rfl]

theorem lexeme?_wellFormed {b : UInt8} {rest : Bytes} {l : Lexeme} (h : lexeme? b rest = some l) :
    l.WellFormed ∧ l.EndsBefore (rest.drop (l.spelling.length - 1)) := by
  unfold lexeme? at h
  split at h
  · rename_i hb
    cases h
    refine ⟨wordKind_wellFormed ⟨hb, fun c hc => ?_⟩, ?_⟩
    · exact List.all_eq_true.1 List.all_takeWhile c hc
    · intro c hc
      simp only [List.length_cons, Nat.add_sub_cancel, drop_length_takeWhile] at hc
      rw [continues_wordKind]
      exact head?_dropWhile hc
  · split at h
    · rename_i hb
      cases h
      refine ⟨⟨by simp, fun c hc => ?_⟩, ?_⟩
      · rcases List.mem_cons.1 hc with rfl | hc
        · exact hb
        · exact List.all_eq_true.1 List.all_takeWhile c hc
      · intro c hc
        simp only [List.length_cons, Nat.add_sub_cancel, drop_length_takeWhile] at hc
        exact head?_dropWhile hc
    · obtain ⟨kind, hkind, rfl⟩ := Option.map_eq_some_iff.1 h
      -- a punctuation byte fixes the kind, and nothing can follow inside the same token
      unfold punctuation? at hkind
      split_ifs at hkind <;> cases hkind <;> subst_vars <;>
        exact ⟨rfl, fun _ _ => rfl⟩

theorem lexeme?_word {b : UInt8} {tail rest : Bytes} (h : IsWord (b :: tail))
    (hend : ∀ c, rest.head? = some c → isWordByte c = false) :
    lexeme? b (tail ++ rest) = some ⟨wordKind (b :: tail), b :: tail⟩ := by
  rw [lexeme?, if_pos h.1, takeWhile_append_of_head? h.2 hend]

theorem lexeme?_numeral {b : UInt8} {tail rest : Bytes} (h : IsNumeral (b :: tail))
    (hend : ∀ c, rest.head? = some c → isDigit c = false) :
    lexeme? b (tail ++ rest) = some ⟨.intLit, b :: tail⟩ := by
  obtain ⟨hb, htail⟩ := h.isDigit_head
  rw [lexeme?, isLetter_of_isDigit hb, if_neg (by simp), if_pos hb,
    takeWhile_append_of_head? htail hend]

theorem Lexeme.WellFormed.isWord {l : Lexeme} (h : l.WellFormed)
    (hk : continues l.kind = isWordByte) : IsWord l.spelling ∧ wordKind l.spelling = l.kind := by
  obtain ⟨kind, spelling⟩ := l
  cases kind with
  | ident => exact ⟨h.1, by simp [wordKind, h.2.1, h.2.2]⟩
  | exit => cases h; exact ⟨isWord_finu, rfl⟩
  | letWord => cases h; exact ⟨isWord_jen, rfl⟩
  | _ => exact absurd (congrFun hk 65) (by simp [continues]; decide)

/-- What is well formed and cannot go on is found where it stands. -/
theorem lexeme?_append {l : Lexeme} {rest : Bytes} (hl : l.WellFormed) (hend : l.EndsBefore rest) :
    ∃ b tail, l.spelling = b :: tail ∧ isSpace b = false ∧ lexeme? b (tail ++ rest) = some l := by
  obtain ⟨kind, spelling⟩ := l
  have word : continues kind = isWordByte → ∃ b tail, spelling = b :: tail ∧
      isSpace b = false ∧ lexeme? b (tail ++ rest) = some ⟨kind, spelling⟩ := by
    intro hk
    obtain ⟨hw, hkind⟩ := hl.isWord hk
    cases spelling with
    | nil => exact hw.elim
    | cons b tail =>
      refine ⟨b, tail, rfl, isSpace_of_isLetter hw.1, ?_⟩
      rw [lexeme?_word hw (fun c hc => by simpa [hk] using hend c hc), hkind]
  cases kind with
  | ident => exact word rfl
  | exit => exact word rfl
  | letWord => exact word rfl
  | intLit =>
    cases spelling with
    | nil => exact absurd rfl hl.1
    | cons b tail =>
      exact ⟨b, tail, rfl, isSpace_of_isDigit hl.isDigit_head.1, lexeme?_numeral hl hend⟩
  | openParen => cases hl; exact ⟨40, [], rfl, rfl, rfl⟩
  | closeParen => cases hl; exact ⟨41, [], rfl, rfl, rfl⟩
  | semi => cases hl; exact ⟨59, [], rfl, rfl, rfl⟩
  | eq => cases hl; exact ⟨61, [], rfl, rfl, rfl⟩
  | other => exact hl.elim

theorem tokensFrom_nil (pos : Nat) : tokensFrom pos [] = .ok [] := by
  rw [tokensFrom]

theorem tokensFrom_space {b : UInt8} (pos : Nat) (rest : Bytes) (hb : isSpace b) :
    tokensFrom pos (b :: rest) = tokensFrom (pos + 1) rest := by
  rw [tokensFrom, if_pos hb]

theorem tokensFrom_append {l : Lexeme} {rest : Bytes} (pos : Nat) (hl : l.WellFormed)
    (hend : l.EndsBefore rest) :
    tokensFrom pos (l.spelling ++ rest) =
      (tokensFrom (pos + l.spelling.length) rest).map (l.token pos :: ·) := by
  obtain ⟨b, tail, hs, hb, hlex⟩ := lexeme?_append hl hend
  have hdrop : (tail ++ rest).drop (l.spelling.length - 1) = rest := by simp [hs]
  rw [hs, List.cons_append, tokensFrom, if_neg (by simp [hb]), hlex]
  dsimp only
  rw [hdrop, hs]
  cases tokensFrom (pos + (b :: tail).length) rest with
  | error e => rfl
  | ok toks => simp [Except.map, Lexeme.token, hs]

theorem Reads.tokensFrom_eq {pos : Nat} {text : Bytes} {toks : List Token}
    (h : Reads pos text toks) : tokensFrom pos text = .ok toks := by
  induction h with
  | nil pos => exact tokensFrom_nil pos
  | space hb _ ih => rw [tokensFrom_space _ _ hb, ih]
  | lexeme hl hend _ ih => rw [tokensFrom_append _ hl hend, ih]; rfl

theorem tokensFrom_eq_ok_iff {pos : Nat} {text : Bytes} {toks : List Token} :
    tokensFrom pos text = .ok toks ↔ Reads pos text toks := by
  refine ⟨fun h => ?_, Reads.tokensFrom_eq⟩
  fun_induction tokensFrom pos text generalizing toks with
  | case1 pos => cases h; exact .nil pos
  | case2 pos b rest hb ih => exact .space hb (ih h)
  | case3 => cases h
  | case4 => cases h
  | case5 pos b rest hb l hlex size toks' hrest =>
    rename_i ih
    cases h
    obtain ⟨hl, hend⟩ := lexeme?_wellFormed hlex
    rw [← lexeme?_spelling hlex]
    exact .lexeme hl hend (ih hrest)

theorem Lexeme.WellFormed.spelling_pos {l : Lexeme} (h : l.WellFormed) :
    0 < l.spelling.length := by
  obtain ⟨kind, spelling⟩ := l
  cases spelling with
  | cons b rest => simp
  | nil => cases kind <;> simp_all [Lexeme.WellFormed, IsName, IsWord, IsNumeral, utf8]

theorem Lexeme.WellFormed.isLegal {l : Lexeme} (h : l.WellFormed) :
    ∀ b ∈ l.spelling, isLegal b := by
  have word : IsWord l.spelling → ∀ b ∈ l.spelling, Lexer.isLegal b := by
    intro hw b hb
    cases hs : l.spelling with
    | nil => simp [hs] at hb
    | cons c tail =>
      rw [hs] at hw hb
      rcases List.mem_cons.1 hb with rfl | hb
      · simp [Lexer.isLegal, hw.1]
      · exact isLegal_of_isWordByte (hw.2 b hb)
  obtain ⟨kind, spelling⟩ := l
  cases kind with
  | ident => exact word h.1
  | exit => exact word (h ▸ isWord_finu)
  | letWord => exact word (h ▸ isWord_jen)
  | intLit => exact fun b hb => by simp [Lexer.isLegal, h.2 b hb]
  | other => exact h.elim
  | _ => cases h; exact List.forall_mem_singleton.2 (by decide)

theorem Reads.isLegal {pos : Nat} {text : Bytes} {toks : List Token} (h : Reads pos text toks) :
    ∀ b ∈ text, Lexer.isLegal b := by
  induction h with
  | nil => simp
  | space hb _ ih =>
    intro c hc
    rcases List.mem_cons.1 hc with rfl | hc
    · exact isLegal_of_isSpace hb
    · exact ih c hc
  | lexeme hl _ _ ih =>
    intro c hc
    rcases List.mem_append.1 hc with hc | hc
    · exact hl.isLegal c hc
    · exact ih c hc

theorem lexeme?_eq_none {b : UInt8} {rest : Bytes} (hs : ¬isSpace b)
    (h : lexeme? b rest = none) : isLegal b = false := by
  unfold lexeme? at h
  split at h
  · cases h
  · split at h
    · cases h
    · rename_i hletter hdigit
      have hmark := punctuation?_eq_none_iff.1 (Option.map_eq_none_iff.1 h)
      simp_all [isLegal]

/-- Reading that fails has come to the first byte that no text may hold. -/
theorem tokensFrom_error {pos : Nat} {text : Bytes} {e : LexicalError}
    (h : tokensFrom pos text = .error e) :
    ∃ before rest, text = before ++ e.byte :: rest ∧ (∀ b ∈ before, isLegal b) ∧
      isLegal e.byte = false ∧ e.pos = (pos + before.length : Nat) := by
  fun_induction tokensFrom pos text with
  | case1 => cases h
  | case2 pos b rest hb ih =>
    obtain ⟨before, rest', rfl, hbefore, hbyte, hpos⟩ := ih h
    refine ⟨b :: before, rest', rfl, ?_, hbyte, ?_⟩
    · exact List.forall_mem_cons.2 ⟨isLegal_of_isSpace hb, hbefore⟩
    · rw [hpos, List.length_cons]; congr 1; omega
  | case3 pos b rest hb hlex =>
    cases h
    exact ⟨[], rest, rfl, by simp, lexeme?_eq_none hb hlex, rfl⟩
  | case4 pos b rest hb l hlex size e' hrest =>
    rename_i ih
    cases h
    obtain ⟨before, rest', hsplit, hbefore, hbyte, hpos⟩ := ih hrest
    refine ⟨l.spelling ++ before, rest', ?_, ?_, hbyte, ?_⟩
    · rw [← lexeme?_spelling hlex, hsplit, List.append_assoc]
    · exact List.forall_mem_append.2 ⟨(lexeme?_wellFormed hlex).1.isLegal, hbefore⟩
    · rw [hpos, List.length_append]; congr 1; omega
  | case5 => cases h

theorem Reads.place {pos : Nat} {text : Bytes} {toks : List Token} (h : Reads pos text toks)
    {t : Token} (ht : t ∈ toks) :
    ∃ (before : Bytes) (l : Lexeme) (rest : Bytes), text = before ++ l.spelling ++ rest ∧
      l.WellFormed ∧ l.EndsBefore rest ∧ t = l.token (pos + before.length) := by
  induction h with
  | nil => simp at ht
  | @space pos b rest toks _ _ ih =>
    obtain ⟨before, l, rest', rfl, hl, hend, rfl⟩ := ih ht
    refine ⟨b :: before, l, rest', rfl, hl, hend, ?_⟩
    rw [List.length_cons]; congr 1; omega
  | @lexeme pos l rest toks hl hend _ ih =>
    rcases List.mem_cons.1 ht with rfl | ht
    · exact ⟨[], l, rest, rfl, hl, hend, rfl⟩
    · obtain ⟨before, l', rest', rfl, hl', hend', rfl⟩ := ih ht
      refine ⟨l.spelling ++ before, l', rest', by simp, hl', hend', ?_⟩
      rw [List.length_append]; congr 1; omega

end Lexer

open Lexer

theorem lex_eq_ok_iff {text : Bytes} {toks : List Token} : lex text = .ok toks ↔ Reads 0 text toks :=
  tokensFrom_eq_ok_iff

theorem exists_lex_eq_ok_iff {text : Bytes} :
    (∃ toks, lex text = .ok toks) ↔ ∀ b ∈ text, isLegal b := by
  constructor
  · rintro ⟨toks, h⟩
    exact (lex_eq_ok_iff.1 h).isLegal
  · intro hlegal
    cases h : lex text with
    | ok toks => exact ⟨toks, rfl⟩
    | error e =>
      obtain ⟨before, rest, rfl, _, hbyte, _⟩ := tokensFrom_error h
      exact absurd (hlegal e.byte (by simp)) (by simp [hbyte])

end LetExit
