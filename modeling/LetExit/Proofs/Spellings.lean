import LetExit.Proofs.CanonicalForm

/-!
# What tokens a text can have

A label is the kind and the text of a token. Most labels belong to no text: a
keyword has no text of its own, an identifier is never a keyword, and a numeral
has at least one digit. Those that do belong to some text have one spelling
each, and any list of them can be written down, since a blank between two
spellings keeps them apart whatever they are.
-/

set_option autoImplicit false

namespace LetExit

open Lexer

def Spellable : Kind × Bytes → Prop
  | (.ident, text) => IsName text
  | (.intLit, text) => IsNumeral text
  | (.exit, text) => text = []
  | (.letWord, text) => text = []
  | (.openParen, text) => text = []
  | (.closeParen, text) => text = []
  | (.semi, text) => text = []
  | (.eq, text) => text = []
  | (.other _ _, _) => False

instance (label : Kind × Bytes) : Decidable (Spellable label) :=
  match label with
  | (.ident, text) => inferInstanceAs (Decidable (IsName text))
  | (.intLit, text) => inferInstanceAs (Decidable (IsNumeral text))
  | (.exit, text) => inferInstanceAs (Decidable (text = []))
  | (.letWord, text) => inferInstanceAs (Decidable (text = []))
  | (.openParen, text) => inferInstanceAs (Decidable (text = []))
  | (.closeParen, text) => inferInstanceAs (Decidable (text = []))
  | (.semi, text) => inferInstanceAs (Decidable (text = []))
  | (.eq, text) => inferInstanceAs (Decidable (text = []))
  | (.other _ _, _) => inferInstanceAs (Decidable False)

def spellingOf : Kind × Bytes → Bytes
  | (.ident, text) => text
  | (.intLit, text) => text
  | (.exit, _) => utf8 "finu"
  | (.letWord, _) => utf8 "jen"
  | (.openParen, _) => utf8 "("
  | (.closeParen, _) => utf8 ")"
  | (.semi, _) => utf8 ";"
  | (.eq, _) => utf8 "="
  | (.other _ _, _) => []

def lexemeOf (label : Kind × Bytes) : Lexeme := ⟨label.1, spellingOf label⟩

theorem Spellable.wellFormed {label : Kind × Bytes} (h : Spellable label) :
    (lexemeOf label).WellFormed := by
  obtain ⟨kind, text⟩ := label
  cases kind with
  | ident => exact h
  | intLit => exact h
  | other => exact h.elim
  | _ => rfl

theorem Spellable.label_lexemeOf {label : Kind × Bytes} (h : Spellable label) :
    (lexemeOf label).label = label := by
  obtain ⟨kind, text⟩ := label
  cases kind with
  | ident => rfl
  | intLit => rfl
  | other => exact h.elim
  | _ => cases h; rfl

theorem Lexer.Lexeme.WellFormed.spellable {l : Lexeme} (h : l.WellFormed) : Spellable l.label := by
  obtain ⟨kind, spelling⟩ := l
  cases kind with
  | ident => exact h
  | intLit => exact h
  | other => exact h.elim
  | _ => rfl

theorem Lexer.Reads.spellable {pos : Nat} {text : Bytes} {toks : List Token}
    (h : Reads pos text toks) : ∀ label ∈ toks.map Token.label, Spellable label := by
  intro label hlabel
  obtain ⟨t, ht, rfl⟩ := List.mem_map.1 hlabel
  obtain ⟨before, l, rest, -, hl, -, rfl⟩ := h.place ht
  exact hl.spellable

/-! Blanks keep lexemes apart. -/

theorem Lexer.continues_of_isSpace (kind : Kind) {b : UInt8} (h : isSpace b) :
    continues kind b = false := by
  have hdigit : isDigit b = false := by
    by_contra hb
    simp [isSpace_of_isDigit (by simpa using hb)] at h
  have hletter : isLetter b = false := by
    by_contra hb
    simp [isSpace_of_isLetter (by simpa using hb)] at h
  cases kind <;> simp [continues, isWordByte, hdigit, hletter]

theorem Lexer.Lexeme.endsBefore_gap (l : Lexeme) {gap : Bytes} (hne : gap ≠ [])
    (hgap : ∀ b ∈ gap, isSpace b) (rest : Bytes) : l.EndsBefore (gap ++ rest) := by
  cases gap with
  | nil => exact absurd rfl hne
  | cons b gap =>
    intro c hc
    cases hc
    exact continues_of_isSpace _ (hgap b (by simp))

namespace Layout

/-- The spellings of the labels with a gap between each two neighbours, and none behind the last. -/
def joined (labels : List (Kind × Bytes)) (gaps : List Bytes) : Layout :=
  (labels.map lexemeOf).zip (gaps ++ [[]])

theorem getElem?_tokens (layout : Layout) (pos k : Nat) :
    (tokens pos layout)[k]? =
      layout[k]?.map fun x => x.1.token (pos + (text (layout.take k)).length) := by
  induction layout generalizing pos k with
  | nil => rfl
  | cons x layout ih =>
    obtain ⟨l, gap⟩ := x
    cases k with
    | zero => rfl
    | succ k =>
      rw [tokens, List.getElem?_cons_succ, ih, List.getElem?_cons_succ, List.take_succ_cons, text]
      simp only [List.length_append, Nat.add_assoc]

theorem map_label_tokens (layout : Layout) (pos : Nat) :
    (tokens pos layout).map Token.label = layout.labels := by
  induction layout generalizing pos with
  | nil => rfl
  | cons x layout ih => rw [tokens, List.map_cons, ih]; rfl

variable {labels : List (Kind × Bytes)} {gaps : List Bytes}

theorem joined_separate (hlabels : ∀ label ∈ labels, Spellable label)
    (hlength : gaps.length = labels.length - 1)
    (hgaps : ∀ gap ∈ gaps, gap ≠ [] ∧ ∀ b ∈ gap, isSpace b) : (joined labels gaps).Separate [] := by
  induction labels generalizing gaps with
  | nil => trivial
  | cons label rest ih =>
    obtain ⟨hlabel, hrest⟩ := List.forall_mem_cons.1 hlabels
    cases gaps with
    | nil =>
      obtain rfl : rest = [] := List.length_eq_zero_iff.1 hlength.symm
      exact ⟨hlabel.wellFormed, by simp, by simp [Lexeme.EndsBefore, text], trivial⟩
    | cons gap gaps =>
      obtain ⟨⟨hne, hgap⟩, hmore⟩ := List.forall_mem_cons.1 hgaps
      have hlength' : gaps.length = rest.length - 1 := by
        simp only [List.length_cons] at hlength
        omega
      refine ⟨hlabel.wellFormed, hgap, ?_, ih hrest hlength' hmore⟩
      rw [List.append_assoc]
      exact Lexeme.endsBefore_gap _ hne hgap _

theorem map_fst_joined (hlength : gaps.length = labels.length - 1) :
    (joined labels gaps).map Prod.fst = labels.map lexemeOf := by
  apply List.map_fst_zip
  simp only [List.length_map, List.length_append, List.length_singleton]
  omega

theorem text_eq_of_getElem? {layout : Layout} {k : Nat} {x : Lexeme × Bytes}
    (h : layout[k]? = some x) :
    text layout = text (layout.take k) ++ x.1.spelling ++ (x.2 ++ text (layout.drop (k + 1))) := by
  obtain ⟨hk, rfl⟩ := List.getElem?_eq_some_iff.1 h
  have hsplit : layout = layout.take k ++ layout[k] :: layout.drop (k + 1) := by
    rw [← List.drop_eq_getElem_cons hk, List.take_append_drop]
  calc text layout = text (layout.take k ++ layout[k] :: layout.drop (k + 1)) := by rw [← hsplit]
    _ = _ := by rw [text_append, text]; simp only [List.append_assoc]

theorem joined_place (hlength : gaps.length = labels.length - 1) {k : Nat} {label : Kind × Bytes}
    (h : labels[k]? = some label) : ∃ after,
      text (joined labels gaps) = text ((joined labels gaps).take k) ++ spellingOf label ++ after ∧
      (tokens 0 (joined labels gaps))[k]? =
        some ((lexemeOf label).token (text ((joined labels gaps).take k)).length) := by
  have hfst : (joined labels gaps)[k]?.map Prod.fst = some (lexemeOf label) := by
    rw [← List.getElem?_map, map_fst_joined hlength, List.getElem?_map, h]
    rfl
  obtain ⟨⟨l, gap⟩, hx, hl⟩ := Option.map_eq_some_iff.1 hfst
  obtain rfl : l = lexemeOf label := hl
  refine ⟨_, text_eq_of_getElem? hx, ?_⟩
  rw [getElem?_tokens, hx, Nat.zero_add]
  rfl

theorem labels_joined (hlabels : ∀ label ∈ labels, Spellable label)
    (hlength : gaps.length = labels.length - 1) : (joined labels gaps).labels = labels := by
  calc (joined labels gaps).labels
      = ((joined labels gaps).map Prod.fst).map Lexeme.label := by rw [List.map_map]; rfl
    _ = labels.map fun label => (lexemeOf label).label := by
        rw [map_fst_joined hlength, List.map_map]; rfl
    _ = labels.map id := List.map_congr_left fun label h => (hlabels label h).label_lexemeOf
    _ = labels := List.map_id labels

theorem lex_joined (hlabels : ∀ label ∈ labels, Spellable label)
    (hlength : gaps.length = labels.length - 1)
    (hgaps : ∀ gap ∈ gaps, gap ≠ [] ∧ ∀ b ∈ gap, isSpace b) :
    lex (joined labels gaps).text = .ok (tokens 0 (joined labels gaps)) ∧
      (tokens 0 (joined labels gaps)).map Token.label = labels := by
  refine ⟨lex_text (joined_separate hlabels hlength hgaps), ?_⟩
  rw [map_label_tokens, labels_joined hlabels hlength]

end Layout

/-- The tokens of texts are those with spellable labels, and all lists of them occur: spellings
joined by blanks are a text whose tokens have these labels, each at the place of its spelling. -/
theorem texts_have_spellable_tokens (labels : List (Kind × Bytes)) :
    ((∃ text toks, lex text = .ok toks ∧ toks.map Token.label = labels) ↔
      ∀ label ∈ labels, Spellable label) ∧
    ((∀ label ∈ labels, Spellable label) → ∀ gaps : List Bytes, gaps.length = labels.length - 1 →
      (∀ gap ∈ gaps, gap ≠ [] ∧ ∀ b ∈ gap, isSpace b) →
      ∃ toks, lex (Layout.joined labels gaps).text = .ok toks ∧ toks.map Token.label = labels ∧
        ∀ k label, labels[k]? = some label → ∃ before after t,
          before = Layout.text ((Layout.joined labels gaps).take k) ∧
          (Layout.joined labels gaps).text = before ++ spellingOf label ++ after ∧
          toks[k]? = some t ∧ t.pos = before.length ∧
          t.stop = (before ++ spellingOf label).length) := by
  refine ⟨⟨?_, fun hlabels => ?_⟩, fun hlabels gaps hlength hgaps => ?_⟩
  · rintro ⟨text, toks, hlex, rfl⟩
    exact (lex_eq_ok_iff.1 hlex).spellable
  · -- one blank between each two spellings will do
    have hgaps : ∀ gap ∈ List.replicate (labels.length - 1) [Bytes.blank],
        gap ≠ [] ∧ ∀ b ∈ gap, isSpace b := by
      intro gap hgap
      rw [List.eq_of_mem_replicate hgap]
      exact ⟨by simp, List.forall_mem_singleton.2 (by decide)⟩
    exact ⟨_, _, Layout.lex_joined hlabels List.length_replicate hgaps⟩
  · obtain ⟨hlex, htokens⟩ := Layout.lex_joined hlabels hlength hgaps
    refine ⟨_, hlex, htokens, fun k label hlabel => ?_⟩
    obtain ⟨after, htext, htoken⟩ := Layout.joined_place hlength hlabel
    refine ⟨_, after, _, rfl, htext, htoken, rfl, ?_⟩
    rw [List.length_append]
    rfl

theorem parted_words_spell_no_keyword :
    (∃ toks t, lex (utf8 "fi\tnu \n07 finu") = .ok toks ∧
      toks.map Token.label =
        [(.ident, utf8 "fi"), (.ident, utf8 "nu"), (.intLit, utf8 "07"), (.exit, [])] ∧
      toks[2]? = some t ∧ t.pos = 7 ∧ t.stop = 9) ∧
    ¬∃ text toks, lex text = .ok toks ∧ toks.map Token.label = [(.ident, utf8 "jen")] := by
  constructor
  · have hlabels : ∀ label ∈ [(Kind.ident, utf8 "fi"), (.ident, utf8 "nu"), (.intLit, utf8 "07"),
        (.exit, [])], Spellable label := by decide
    have hgaps : ∀ gap ∈ [utf8 "\t", utf8 " \n", utf8 " "],
        gap ≠ [] ∧ ∀ b ∈ gap, isSpace b := by
      simp only [List.forall_mem_cons, List.not_mem_nil, false_imp_iff, implies_true, and_true]
      exact ⟨⟨by decide, List.all_eq_true.1 (by decide)⟩,
        ⟨by decide, List.all_eq_true.1 (by decide)⟩, by decide, List.all_eq_true.1 (by decide)⟩
    obtain ⟨toks, hlex, hlabel, hplace⟩ :=
      (texts_have_spellable_tokens _).2 hlabels _ rfl hgaps
    obtain ⟨before, after, t, rfl, -, ht, hpos, hstop⟩ := hplace 2 _ rfl
    exact ⟨toks, t, hlex, hlabel, ht, hpos, hstop⟩
  · intro h
    have hname := (texts_have_spellable_tokens _).1.1 h _ (.head _)
    exact absurd hname (by decide)

end LetExit
