import LetExit.Proofs.Concatenation

/-!
# Where tokens run into each other

Two texts keep their tokens when one is put behind the other, unless the last
token of the first reaches its end and the byte behind it belongs to the same
token. A word goes on with letters and digits and an integer literal with
digits only, so `12` does not run into `ab`, but `ab` runs into `12`. Where it
happens, the last token becomes a longer one.
-/

set_option autoImplicit false

namespace LetExit

open Lexer

/-- The last of the tokens of `a` reaches its end and goes on with the first byte of `b`. -/
def Glues (a : Bytes) (toks : List Token) (b : Bytes) : Prop :=
  ∃ t, toks.getLast? = some t ∧ t.stop = a.length ∧ ∃ c, b.head? = some c ∧ continues t.kind c

theorem endsApart_iff_not_glues {a b : Bytes} {toks : List Token} :
    EndsApart toks a.length b ↔ ¬Glues a toks b := by
  constructor
  · rintro h ⟨t, ht, hstop, c, hc, hgoes⟩
    rw [h t ht hstop c hc] at hgoes
    cases hgoes
  · intro h t ht hstop c hc
    by_contra hgoes
    exact h ⟨t, ht, hstop, c, hc, by simpa using hgoes⟩

namespace Lexer

theorem length_lt_of_takeWhile {p : UInt8 → Bool} {tail rest : Bytes} {c : UInt8}
    (htail : ∀ b ∈ tail, p b) (hc : p c) :
    tail.length < ((tail ++ c :: rest).takeWhile p).length := by
  rw [List.takeWhile_append_of_pos htail, List.takeWhile_cons_of_pos hc, List.length_append,
    List.length_cons]
  omega

theorem lexeme?_of_continues {l : Lexeme} (hl : l.WellFormed) {c : UInt8}
    (hc : continues l.kind c) (rest : Bytes) :
    ∃ b tail l', l.spelling = b :: tail ∧ isSpace b = false ∧
      lexeme? b (tail ++ c :: rest) = some l' ∧ l.spelling.length < l'.spelling.length := by
  obtain ⟨kind, spelling⟩ := l
  have word : continues kind = isWordByte → ∃ b tail l', spelling = b :: tail ∧
      isSpace b = false ∧ lexeme? b (tail ++ c :: rest) = some l' ∧
      spelling.length < l'.spelling.length := by
    intro hk
    obtain ⟨hw, -⟩ := hl.isWord hk
    rw [hk] at hc
    cases spelling with
    | nil => exact hw.elim
    | cons b tail =>
      refine ⟨b, tail, _, rfl, isSpace_of_isLetter hw.1, if_pos hw.1, ?_⟩
      exact Nat.succ_lt_succ (length_lt_of_takeWhile hw.2 hc)
  cases kind with
  | ident => exact word rfl
  | exit => exact word rfl
  | letWord => exact word rfl
  | intLit =>
    cases spelling with
    | nil => exact absurd rfl hl.1
    | cons b tail =>
      obtain ⟨hb, htail⟩ := hl.isDigit_head
      have hletter : ¬isLetter b := by simp [isLetter_of_isDigit hb]
      refine ⟨b, tail, _, rfl, isSpace_of_isDigit hb, (if_neg hletter).trans (if_pos hb), ?_⟩
      exact Nat.succ_lt_succ (length_lt_of_takeWhile htail hc)
  | _ => cases hc

theorem Reads.last_grows {pos : Nat} {text rest : Bytes} {toks others : List Token} {t : Token}
    {c : UInt8} (h : Reads pos text toks) (ht : toks.getLast? = some t)
    (hstop : t.stop = (pos + text.length : Nat)) (hc : continues t.kind c)
    (hothers : tokensFrom pos (text ++ c :: rest) = .ok others) :
    ∃ u more, others = toks.dropLast ++ u :: more ∧ u.pos = t.pos ∧ t.stop < u.stop := by
  induction h generalizing others with
  | nil pos => cases ht
  | @space pos b text toks hb _ ih =>
    rw [List.cons_append, tokensFrom_space _ _ hb] at hothers
    apply ih ht _ hothers
    rw [hstop, List.length_cons]
    congr 1
    omega
  | @lexeme pos l text toks hl hend hreads ih =>
    have hlength : pos + (l.spelling ++ text).length = pos + l.spelling.length + text.length := by
      rw [List.length_append]
      omega
    rw [hlength] at hstop
    rw [List.append_assoc] at hothers
    cases toks with
    | nil =>
      -- the lexeme is the last one and reaches the end, so nothing of the text follows it
      obtain rfl : l.token pos = t := Option.some.inj ht
      have hnil : text = [] := by
        apply List.length_eq_zero_iff.1
        simp only [Lexeme.token] at hstop
        omega
      obtain ⟨b, tail, l', hs, hb, hlex, hlt⟩ := lexeme?_of_continues hl hc rest
      rw [hnil, List.nil_append, hs, List.cons_append, tokensFrom, if_neg (by simp [hb]),
        hlex] at hothers
      dsimp only at hothers
      split at hothers
      · cases hothers
      · rename_i more _
        cases hothers
        refine ⟨_, more, rfl, rfl, ?_⟩
        simp only [Lexeme.token]
        omega
    | cons first toks =>
      have happart : l.EndsBefore (text ++ c :: rest) := by
        cases text with
        | cons b text => exact hend
        | nil => cases hreads.tokensFrom_eq.symm.trans (tokensFrom_nil _)
      rw [Lexer.tokensFrom_append pos hl happart] at hothers
      cases htail : tokensFrom (pos + l.spelling.length) (text ++ c :: rest) with
      | error e =>
        rw [htail] at hothers
        cases hothers
      | ok others' =>
        rw [htail] at hothers
        cases hothers
        rw [List.getLast?_cons_cons] at ht
        obtain ⟨u, more, rfl, hpos, hlt⟩ := ih ht hstop htail
        exact ⟨u, more, rfl, hpos, hlt⟩

end Lexer

/-- Texts keep their tokens when one is put behind the other, and a text that has none is refused
at the same byte, unless the last token of the first runs into the second. If it does, there is a
longer token in its place, and the tokens are never those of the two texts. -/
theorem lexing_distributes_unless_glued {a : Bytes} {toks : List Token} (ha : lex a = .ok toks)
    (b : Bytes) :
    (¬Glues a toks b →
      (∀ more, lex b = .ok more →
        lex (a ++ b) = .ok (toks ++ more.map (Token.shift a.length))) ∧
      ∀ e, lex b = .error e → lex (a ++ b) = .error ⟨e.pos + a.length, e.byte⟩) ∧
    (Glues a toks b → ∀ more, lex b = .ok more →
      lex (a ++ b) ≠ .ok (toks ++ more.map (Token.shift a.length)) ∧
      ∃ t u others, toks.getLast? = some t ∧ lex (a ++ b) = .ok (toks.dropLast ++ u :: others) ∧
        u.pos = t.pos ∧ t.stop < u.stop) := by
  constructor
  · intro hapart
    have happend := lex_append ha (endsApart_iff_not_glues.2 hapart)
    constructor
    · intro more hmore
      rw [happend, hmore]
      rfl
    · intro e he
      rw [happend, he]
      rfl
  · rintro ⟨t, ht, hstop, c, hc, hgoes⟩ more hmore
    obtain ⟨rest, rfl⟩ : ∃ rest, b = c :: rest := List.head?_eq_some_iff.1 hc
    have hlegal : ∀ d ∈ a ++ c :: rest, isLegal d := List.forall_mem_append.2
      ⟨exists_lex_eq_ok_iff.1 ⟨toks, ha⟩, exists_lex_eq_ok_iff.1 ⟨more, hmore⟩⟩
    obtain ⟨found, hfound⟩ := exists_lex_eq_ok_iff.2 hlegal
    obtain ⟨u, others, rfl, hpos, hlt⟩ :=
      (lex_eq_ok_iff.1 ha).last_grows ht (by simpa using hstop) hgoes hfound
    refine ⟨fun hsame => ?_, t, u, others, ht, hfound, hpos, hlt⟩
    -- the longer token would be the last of the first text
    have htoks := List.dropLast_append_getLast? t ht
    have hlists := calc toks.dropLast ++ u :: others
        = toks ++ more.map (Token.shift a.length) := Except.ok.inj (hfound.symm.trans hsame)
      _ = (toks.dropLast ++ [t]) ++ more.map (Token.shift a.length) := by rw [htoks]
      _ = toks.dropLast ++ t :: more.map (Token.shift a.length) := by simp
    obtain ⟨rfl, -⟩ := List.cons.inj (List.append_cancel_left hlists)
    exact absurd hlt (Int.lt_irrefl _)

theorem words_glue_and_numerals_do_not :
    lex (utf8 "finu 12" ++ utf8 "ab") =
        .ok [⟨.exit, [], 0, 4⟩, ⟨.intLit, utf8 "12", 5, 7⟩, ⟨.ident, utf8 "ab", 7, 9⟩] ∧
      lex (utf8 "finu 12" ++ utf8 "ab$") = .error ⟨9, 36⟩ ∧
      lex (utf8 "fi" ++ utf8 "nu 12") ≠ .ok ([⟨.ident, utf8 "fi", 0, 2⟩] ++
        [⟨.ident, utf8 "nu", 2, 4⟩, ⟨.intLit, utf8 "12", 5, 7⟩]) := by
  have hnumeral : lex (utf8 "finu 12") = .ok [⟨.exit, [], 0, 4⟩, ⟨.intLit, utf8 "12", 5, 7⟩] := by
    decide +kernel
  have hword : lex (utf8 "fi") = .ok [⟨.ident, utf8 "fi", 0, 2⟩] := by decide +kernel
  have hapart : ∀ b, b.head? = some 97 →
      ¬Glues (utf8 "finu 12") [⟨.exit, [], 0, 4⟩, ⟨.intLit, utf8 "12", 5, 7⟩] b := by
    rintro b hb ⟨t, ht, -, c, hc, hgoes⟩
    cases ht
    rw [hb] at hc
    cases hc
    exact absurd hgoes (by decide)
  have hglues : Glues (utf8 "fi") [⟨.ident, utf8 "fi", 0, 2⟩] (utf8 "nu 12") :=
    ⟨_, rfl, rfl, 110, rfl, by decide⟩
  refine ⟨?_, ?_, ?_⟩
  · exact ((lexing_distributes_unless_glued hnumeral _).1 (hapart _ rfl)).1
      [⟨.ident, utf8 "ab", 0, 2⟩] (by decide +kernel)
  · exact ((lexing_distributes_unless_glued hnumeral _).1 (hapart _ rfl)).2 ⟨2, 36⟩
      (by decide +kernel)
  · exact ((lexing_distributes_unless_glued hword _).2 hglues
      [⟨.ident, utf8 "nu", 0, 2⟩, ⟨.intLit, utf8 "12", 3, 5⟩] (by decide +kernel)).1

end LetExit
