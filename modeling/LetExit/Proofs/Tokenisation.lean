import Mathlib.Data.List.Basic
import LetExit.Proofs.Lexing

/-!
# The one way to cut a text into tokens

A tokenisation of a text is described without reading it from left to right:
the spans of its tokens follow each other, only blanks are left between them,
each token says what the bytes of its span are, and none could be longer. The
description leaves no choice. The byte at the front of a text either is a
blank, which no token covers, or is covered by the first token, whose class
and length the bytes determine; the rest of the text is in the same position.
-/

set_option autoImplicit false

namespace LetExit

open Lexer

def Token.Covers (t : Token) (i : Nat) : Prop := t.pos ≤ i ∧ i < t.stop

def Token.bytes (text : Bytes) (t : Token) : Bytes :=
  (text.drop t.pos.toNat).take (t.stop.toNat - t.pos.toNat)

inductive Lexer.Tells : Bytes → Kind → Bytes → Prop where
  | exit : Tells (utf8 "finu") .exit []
  | letWord : Tells (utf8 "jen") .letWord []
  | ident {bs : Bytes} (h : IsWord bs) (hexit : bs ≠ utf8 "finu") (hlet : bs ≠ utf8 "jen") :
      Tells bs .ident bs
  | intLit {bs : Bytes} (h : IsNumeral bs) : Tells bs .intLit bs
  | openParen : Tells [40] .openParen []
  | closeParen : Tells [41] .closeParen []
  | semi : Tells [59] .semi []
  | eq : Tells [61] .eq []

/-- The tokens account for the text: every byte that is no blank belongs to exactly one of them,
and each is as long as its class allows. -/
structure Tokenisation (text : Bytes) (toks : List Token) : Prop where
  within : ∀ t ∈ toks, 0 ≤ t.pos ∧ t.pos < t.stop ∧ t.stop ≤ text.length
  apart : toks.Pairwise fun t u => t.stop ≤ u.pos
  gaps : ∀ i b, text[i]? = some b → ((∀ t ∈ toks, ¬t.Covers i) ↔ isSpace b)
  told : ∀ t ∈ toks, Tells (t.bytes text) t.kind t.text
  longest : ∀ t ∈ toks, ∀ b, text[t.stop.toNat]? = some b → continues t.kind b = false

namespace Lexer

theorem tells_iff {bs text : Bytes} {kind : Kind} :
    Tells bs kind text ↔ Lexeme.WellFormed ⟨kind, bs⟩ ∧ text = Lexeme.text ⟨kind, bs⟩ := by
  constructor
  · intro h
    cases h with
    | ident h hexit hlet => exact ⟨⟨h, hexit, hlet⟩, rfl⟩
    | intLit h => exact ⟨h, rfl⟩
    | _ => exact ⟨rfl, rfl⟩
  · rintro ⟨h, rfl⟩
    cases kind with
    | ident => exact .ident h.1 h.2.1 h.2.2
    | intLit => exact .intLit h
    | other => exact h.elim
    | exit => cases h; exact .exit
    | letWord => cases h; exact .letWord
    | openParen => cases h; exact .openParen
    | closeParen => cases h; exact .closeParen
    | semi => cases h; exact .semi
    | eq => cases h; exact .eq

theorem Lexeme.WellFormed.not_isSpace {l : Lexeme} (h : l.WellFormed) :
    ∀ b ∈ l.spelling, isSpace b = false := by
  have word : IsWord l.spelling → ∀ b ∈ l.spelling, isSpace b = false := by
    intro hw b hb
    cases hs : l.spelling with
    | nil => simp [hs] at hb
    | cons c tail =>
      rw [hs] at hw hb
      rcases List.mem_cons.1 hb with rfl | hb
      · exact isSpace_of_isLetter hw.1
      · rcases Bool.or_eq_true_iff.1 (hw.2 b hb) with hb | hb
        · exact isSpace_of_isLetter hb
        · exact isSpace_of_isDigit hb
  obtain ⟨kind, spelling⟩ := l
  cases kind with
  | ident => exact word h.1
  | exit => exact word (h ▸ isWord_finu)
  | letWord => exact word (h ▸ isWord_jen)
  | intLit => exact fun b hb => isSpace_of_isDigit (h.2 b hb)
  | other => exact h.elim
  | _ => cases h; exact List.forall_mem_singleton.2 (by decide)

def Placed (pos : Nat) (text : Bytes) (t : Token) : Prop :=
  ∃ (before : Bytes) (l : Lexeme) (rest : Bytes), text = before ++ l.spelling ++ rest ∧
    l.WellFormed ∧ l.EndsBefore rest ∧ t = l.token (pos + before.length)

/-- A tokenisation of a text that starts at offset `pos` of its source. -/
structure Covering (pos : Nat) (text : Bytes) (toks : List Token) : Prop where
  placed : ∀ t ∈ toks, Placed pos text t
  apart : toks.Pairwise fun t u => t.stop ≤ u.pos
  gaps : ∀ i b, text[i]? = some b → ((∀ t ∈ toks, ¬t.Covers (pos + i)) ↔ isSpace b)

theorem Lexeme.bytes_token (l : Lexeme) (before rest : Bytes) :
    (l.token before.length).bytes (before ++ l.spelling ++ rest) = l.spelling := by
  have hstart : (l.token before.length).pos.toNat = before.length := rfl
  have hstop : (l.token before.length).stop.toNat = before.length + l.spelling.length := rfl
  rw [Token.bytes, hstart, hstop, Nat.add_sub_cancel_left, List.append_assoc, List.drop_left,
    List.take_left]

theorem take_append_bytes_append_drop (text : Bytes) {start stop : Nat} (h : start ≤ stop) :
    text.take start ++ (text.drop start).take (stop - start) ++ text.drop stop = text := by
  have hcut : text.drop stop = (text.drop start).drop (stop - start) := by
    rw [List.drop_drop]
    congr 1
    omega
  rw [hcut, List.append_assoc, List.take_append_drop, List.take_append_drop]

theorem placed_zero_iff {text : Bytes} {t : Token} :
    Placed 0 text t ↔ (0 ≤ t.pos ∧ t.pos < t.stop ∧ t.stop ≤ text.length) ∧
      Tells (t.bytes text) t.kind t.text ∧
      ∀ b, text[t.stop.toNat]? = some b → continues t.kind b = false := by
  constructor
  · rintro ⟨before, l, rest, rfl, hl, hend, rfl⟩
    rw [Nat.zero_add]
    have hlen := hl.spelling_pos
    have hstop : (l.token before.length).stop.toNat = (before ++ l.spelling).length := by
      rw [List.length_append]
      rfl
    refine ⟨?_, ?_, ?_⟩
    · simp only [Lexeme.token, List.length_append]
      omega
    · rw [Lexeme.bytes_token]
      exact tells_iff.2 ⟨hl, rfl⟩
    · intro b hb
      apply hend
      rwa [hstop, List.getElem?_append_right (Nat.le_refl _), Nat.sub_self,
        ← List.head?_eq_getElem?] at hb
  · rintro ⟨⟨hpos, hlt, hle⟩, htells, hlongest⟩
    obtain ⟨kind, tokenText, start, stop⟩ := t
    obtain ⟨start, rfl⟩ := Int.eq_ofNat_of_zero_le hpos
    obtain ⟨stop, rfl⟩ := Int.eq_ofNat_of_zero_le (Int.le_trans hpos (Int.le_of_lt hlt))
    simp only [Int.toNat_natCast, Token.bytes] at htells hlongest hlt hle
    obtain ⟨hl, rfl⟩ := tells_iff.1 htells
    have hstart : (text.take start).length = start := by
      rw [List.length_take]
      omega
    have hsize : ((text.drop start).take (stop - start)).length = stop - start := by
      rw [List.length_take, List.length_drop]
      omega
    refine ⟨text.take start, ⟨kind, (text.drop start).take (stop - start)⟩, text.drop stop,
      (take_append_bytes_append_drop text (by omega)).symm, hl, ?_, ?_⟩
    · intro b hb
      apply hlongest
      rwa [List.head?_drop] at hb
    · rw [Nat.zero_add, hstart, Lexeme.token, hsize]
      congr 1
      omega

theorem tokenisation_iff_covering {text : Bytes} {toks : List Token} :
    Tokenisation text toks ↔ Covering 0 text toks := by
  constructor
  · intro h
    refine ⟨fun t ht => placed_zero_iff.2 ⟨h.within t ht, h.told t ht, h.longest t ht⟩, h.apart, ?_⟩
    simpa only [Nat.zero_add] using h.gaps
  · intro h
    have hplaced := fun t ht => placed_zero_iff.1 (h.placed t ht)
    refine ⟨fun t ht => (hplaced t ht).1, h.apart, ?_, fun t ht => (hplaced t ht).2.1,
      fun t ht => (hplaced t ht).2.2⟩
    simpa only [Nat.zero_add] using h.gaps

theorem Placed.pos_le {pos : Nat} {text : Bytes} {t : Token} (h : Placed pos text t) :
    pos ≤ t.pos ∧ t.pos < t.stop := by
  obtain ⟨before, l, rest, -, hl, -, rfl⟩ := h
  have hlen := hl.spelling_pos
  simp only [Lexeme.token]
  omega

theorem placed_append_iff {pos : Nat} (front : Bytes) {rest : Bytes} {t : Token} :
    Placed (pos + front.length) rest t ↔
      Placed pos (front ++ rest) t ∧ (pos + front.length : Nat) ≤ t.pos := by
  constructor
  · intro h
    refine ⟨?_, h.pos_le.1⟩
    obtain ⟨before, l, after, rfl, hl, hend, rfl⟩ := h
    refine ⟨front ++ before, l, after, by simp, hl, hend, ?_⟩
    rw [List.length_append, Nat.add_assoc]
  · rintro ⟨⟨before, l, after, htext, hl, hend, rfl⟩, hle⟩
    have hlen : front.length ≤ before.length := by
      simp only [Lexeme.token] at hle
      omega
    rw [List.append_assoc] at htext
    -- both are prefixes of the text, and the front is the shorter one
    obtain ⟨between, rfl⟩ : front <+: before :=
      List.prefix_of_prefix_length_le ⟨rest, rfl⟩ ⟨_, htext.symm⟩ hlen
    rw [List.append_assoc] at htext
    refine ⟨between, l, after, ?_, hl, hend, ?_⟩
    · rw [List.append_assoc]
      exact List.append_cancel_left htext
    · rw [List.length_append, Nat.add_assoc]

theorem covering_space {pos : Nat} {b : UInt8} {rest : Bytes} {toks : List Token}
    (hb : isSpace b) : Covering pos (b :: rest) toks ↔ Covering (pos + 1) rest toks := by
  have hplaced : ∀ t, Placed pos (b :: rest) t ↔ Placed (pos + 1) rest t := by
    intro t
    have hsplit : Placed (pos + 1) rest t ↔
        Placed pos (b :: rest) t ∧ (pos + 1 : Nat) ≤ t.pos :=
      placed_append_iff [b]
    rw [hsplit, iff_self_and]
    rintro ⟨before, l, after, htext, hl, -, rfl⟩
    cases before with
    | nil =>
      have hend : l.EndsBefore [] := by simp [Lexeme.EndsBefore]
      obtain ⟨c, tail, hs, hc, -⟩ := lexeme?_append hl hend
      rw [List.nil_append, hs, List.cons_append] at htext
      cases htext
      simp [hb] at hc
    | cons c before =>
      simp only [Lexeme.token, List.length_cons]
      omega
  have hgap : (∀ t ∈ toks, Placed (pos + 1) rest t) → ∀ t ∈ toks, ¬t.Covers pos := by
    intro h t ht hcovers
    have hpos := (h t ht).pos_le.1
    have := hcovers.1
    omega
  constructor
  · intro h
    refine ⟨fun t ht => (hplaced t).1 (h.placed t ht), h.apart, fun i c hc => ?_⟩
    rw [← h.gaps (i + 1) c hc, show pos + 1 + i = pos + (i + 1) by omega]
  · intro h
    refine ⟨fun t ht => (hplaced t).2 (h.placed t ht), h.apart, fun i c hc => ?_⟩
    cases i with
    | zero =>
      cases hc
      exact iff_of_true (hgap h.placed) hb
    | succ i => rw [← h.gaps i c hc, show pos + 1 + i = pos + (i + 1) by omega]

theorem covering_lexeme {pos : Nat} {l : Lexeme} {rest : Bytes} {toks : List Token}
    (hl : l.WellFormed) (hend : l.EndsBefore rest) :
    Covering pos (l.spelling ++ rest) (l.token pos :: toks) ↔
      Covering (pos + l.spelling.length) rest toks := by
  have hcovers : ∀ i, (l.token pos).Covers (pos + i) ↔ i < l.spelling.length := by
    intro i
    simp only [Token.Covers, Lexeme.token]
    omega
  constructor
  · intro h
    obtain ⟨hfirst, hrest⟩ := List.pairwise_cons.1 h.apart
    refine ⟨fun t ht => ?_, hrest, fun i b hb => ?_⟩
    · exact (placed_append_iff _).2 ⟨h.placed t (by simp [ht]), hfirst t ht⟩
    · have hi : (l.spelling ++ rest)[l.spelling.length + i]? = some b := by
        rw [List.getElem?_append_right (by omega), Nat.add_sub_cancel_left, hb]
      rw [← h.gaps _ b hi, List.forall_mem_cons, hcovers, Nat.add_assoc]
      simp
  · intro h
    refine ⟨?_, ?_, fun i b hb => ?_⟩
    · refine List.forall_mem_cons.2 ⟨⟨[], l, rest, rfl, hl, hend, rfl⟩, fun t ht => ?_⟩
      exact ((placed_append_iff _).1 (h.placed t ht)).1
    · exact List.pairwise_cons.2 ⟨fun t ht => ((placed_append_iff _).1 (h.placed t ht)).2, h.apart⟩
    · rw [List.forall_mem_cons, hcovers]
      by_cases hi : i < l.spelling.length
      · rw [List.getElem?_append_left hi] at hb
        have hb' := hl.not_isSpace b (List.mem_of_getElem? hb)
        simp [hi, hb']
      · rw [List.getElem?_append_right (by omega)] at hb
        rw [← h.gaps _ b hb,
          show pos + l.spelling.length + (i - l.spelling.length) = pos + i by omega]
        simp [hi]

theorem Reads.covering {pos : Nat} {text : Bytes} {toks : List Token} (h : Reads pos text toks) :
    Covering pos text toks := by
  induction h with
  | nil pos => exact ⟨by simp, .nil, by simp⟩
  | space hb _ ih => exact (covering_space hb).2 ih
  | lexeme hl hend _ ih => exact (covering_lexeme hl hend).2 ih

/-- A byte that is no blank is covered, and at the front of a text only the first token can. -/
theorem Covering.first {pos : Nat} {b : UInt8} {rest : Bytes} {toks : List Token}
    (h : Covering pos (b :: rest) toks) (hb : ¬isSpace b) :
    ∃ (l : Lexeme) (after : Bytes) (others : List Token), b :: rest = l.spelling ++ after ∧
      l.WellFormed ∧ l.EndsBefore after ∧ toks = l.token pos :: others := by
  have hcovered : ¬∀ t ∈ toks, ¬t.Covers pos := fun hnone => hb ((h.gaps 0 b rfl).1 hnone)
  obtain ⟨t, ht, hpos⟩ : ∃ t ∈ toks, t.Covers pos := by simpa using hcovered
  cases toks with
  | nil => simp at ht
  | cons u others =>
    have hu := (h.placed u (by simp)).pos_le
    have htu : t = u := by
      rcases List.mem_cons.1 ht with htu | ht
      · exact htu
      · -- a later token starts behind the first, which is not empty
        have hle := (List.pairwise_cons.1 h.apart).1 t ht
        have := hpos.1
        omega
    rw [htu] at hpos
    obtain ⟨before, l, after, htext, hl, hend, htoken⟩ := h.placed u (by simp)
    have hnil : before = [] := by
      apply List.length_eq_zero_iff.1
      have := hpos.1
      simp only [htoken, Lexeme.token] at this
      omega
    rw [hnil, List.nil_append] at htext
    rw [hnil, List.length_nil, Nat.add_zero] at htoken
    exact ⟨l, after, others, htext, hl, hend, by rw [htoken]⟩

theorem Covering.reads {pos : Nat} {text : Bytes} {toks : List Token} (h : Covering pos text toks) :
    Reads pos text toks := by
  match text with
  | [] =>
    have hnil : toks = [] := by
      apply List.eq_nil_iff_forall_not_mem.2
      intro t ht
      obtain ⟨before, l, after, htext, hl, -, -⟩ := h.placed t ht
      have hlen := congrArg List.length htext
      have := hl.spelling_pos
      simp only [List.length_append, List.length_nil] at hlen
      omega
    rw [hnil]
    exact .nil pos
  | b :: rest =>
    by_cases hb : isSpace b
    · exact .space hb ((covering_space hb).1 h).reads
    · -- the lexeme may take off any number of bytes, so the recursion is on the length
      obtain ⟨l, after, others, htext, hl, hend, rfl⟩ := h.first hb
      have := hl.spelling_pos
      rw [htext] at h ⊢
      exact .lexeme hl hend ((covering_lexeme hl hend).1 h).reads
termination_by text.length
decreasing_by
  · simp
  · rw [htext, List.length_append]
    omega

end Lexer

theorem lex_eq_ok_iff_tokenisation {text : Bytes} {toks : List Token} :
    lex text = .ok toks ↔ Tokenisation text toks := by
  rw [lex_eq_ok_iff, tokenisation_iff_covering]
  exact ⟨Reads.covering, Covering.reads⟩

theorem lex_eq_error {text : Bytes} {e : LexicalError} (h : lex text = .error e) :
    ∃ n : Nat, e.pos = n ∧ text[n]? = some e.byte ∧ isLegal e.byte = false ∧
      ∀ m < n, ∀ b, text[m]? = some b → isLegal b := by
  obtain ⟨before, rest, rfl, hbefore, hbyte, hpos⟩ := tokensFrom_error h
  rw [Nat.zero_add] at hpos
  refine ⟨before.length, hpos, by simp, hbyte, ?_⟩
  intro m hm b hb
  rw [List.getElem?_append_left hm] at hb
  exact hbefore b (List.mem_of_getElem? hb)

/-- A text of legal bytes has exactly one tokenisation, and reading finds it. In any other text
reading stops at the first byte that is not legal. -/
theorem lex_computes_unique_tokenisation (text : Bytes) :
    ((∀ b ∈ text, isLegal b) → ∃ toks, lex text = .ok toks ∧ Tokenisation text toks ∧
      ∀ others, Tokenisation text others → others = toks) ∧
    ((∃ b ∈ text, isLegal b = false) → ∃ (n : Nat) (b : UInt8), lex text = .error ⟨n, b⟩ ∧
      text[n]? = some b ∧ isLegal b = false ∧
      ∀ m < n, ∀ c, text[m]? = some c → isLegal c) := by
  constructor
  · intro hlegal
    obtain ⟨toks, hlex⟩ := exists_lex_eq_ok_iff.2 hlegal
    refine ⟨toks, hlex, lex_eq_ok_iff_tokenisation.1 hlex, fun others hothers => ?_⟩
    have hlex' := lex_eq_ok_iff_tokenisation.2 hothers
    exact Except.ok.inj (hlex'.symm.trans hlex)
  · rintro ⟨b, hb, hillegal⟩
    cases hlex : lex text with
    | ok toks =>
      have hlegal := exists_lex_eq_ok_iff.1 ⟨toks, hlex⟩ b hb
      simp [hillegal] at hlegal
    | error e =>
      obtain ⟨n, hpos, hbyte, hbad, hfirst⟩ := lex_eq_error hlex
      exact ⟨n, e.byte, by rw [← hpos], hbyte, hbad, hfirst⟩

theorem glued_text_has_one_tokenisation :
    (∃ toks, lex (utf8 "12ab=finux;jen1") = .ok toks ∧
      toks.map Token.text = [utf8 "12", utf8 "ab", [], utf8 "finux", [], utf8 "jen1"] ∧
      Tokenisation (utf8 "12ab=finux;jen1") toks ∧
      ∀ others, Tokenisation (utf8 "12ab=finux;jen1") others → others = toks) ∧
    ∃ (n : Nat) (b : UInt8), lex (utf8 "jen a1$;?") = .error ⟨n, b⟩ ∧
      (utf8 "jen a1$;?")[n]? = some b ∧ isLegal b = false ∧ n = 6 := by
  constructor
  · have hlegal : ∀ b ∈ utf8 "12ab=finux;jen1", isLegal b := List.all_eq_true.1 (by decide)
    have htexts : (lex (utf8 "12ab=finux;jen1")).map (List.map Token.text) =
        .ok [utf8 "12", utf8 "ab", [], utf8 "finux", [], utf8 "jen1"] := by decide +kernel
    obtain ⟨toks, hlex, htok, hunique⟩ := (lex_computes_unique_tokenisation _).1 hlegal
    rw [hlex] at htexts
    exact ⟨toks, hlex, Except.ok.inj htexts, htok, hunique⟩
  · have hillegal : ∃ b ∈ utf8 "jen a1$;?", isLegal b = false := ⟨36, by decide, by decide⟩
    have hpos : (lex (utf8 "jen a1$;?")) = .error ⟨6, 36⟩ := by decide +kernel
    obtain ⟨n, b, hlex, hb, hbad, -⟩ := (lex_computes_unique_tokenisation _).2 hillegal
    refine ⟨n, b, hlex, hb, hbad, ?_⟩
    have hn := congrArg LexicalError.pos (Except.error.inj (hlex.symm.trans hpos))
    exact Int.ofNat.inj hn

end LetExit
