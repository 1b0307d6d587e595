import LetExit.Proofs.Tokenisation
import LetExit.Proofs.Concatenation

/-!
# Statements cut out of their text

The tokens of a text are not disturbed by what stands around them: a part of
the text that cuts no token in two has the tokens that lie in it. The span of
a statement reaches from the first to the last of the five tokens that spell
it, so it is such a part, and read on its own it gives the statement alone.
The name and the expression are tokens in between.
-/

set_option autoImplicit false

namespace LetExit

open Lexer Grammar

def Span.bytes (text : Bytes) (s : Span) : Bytes :=
  (text.drop s.pos.toNat).take (s.stop.toNat - s.pos.toNat)

def Span.Covers (s : Span) (i : Nat) : Prop := s.pos ≤ i ∧ i < s.stop

def Span.Within (s outer : Span) : Prop :=
  outer.pos ≤ s.pos ∧ s.pos < s.stop ∧ s.stop ≤ outer.stop

def Stmt.span? : Stmt → Option Span
  | .declare span _ _ => some span
  | .exit span _ => some span
  | .foreign _ => none

def Program.spans (p : Program) : List Span := p.stmts.filterMap Stmt.span?

/-! The spans of a name and of an expression, with what is said to stand there. -/

def Expr.parts : Expr → List (Span × Bytes)
  | .literal span digits => [(span, digits)]
  | .var name => [(name.span, name.text)]
  | .foreign _ => []

def Stmt.parts : Stmt → List (Span × Bytes)
  | .declare _ name value => (name.span, name.text) :: value.parts
  | .exit _ status => status.parts
  | .foreign _ => []

/-! Parts of a text. -/

section Cut

variable {text : Bytes} {cut : Span}

theorem Span.length_bytes (h : cut.Within ⟨0, text.length⟩) :
    ((cut.bytes text).length : Int) = cut.stop - cut.pos := by
  obtain ⟨hpos, hlt, hstop⟩ := h
  simp only [Span.bytes, List.length_take, List.length_drop]
  simp only at hpos hstop
  omega

theorem Span.getElem?_bytes {i : Nat} {b : UInt8} (hcut : 0 ≤ cut.pos)
    (h : (cut.bytes text)[i]? = some b) :
    cut.Covers (cut.pos.toNat + i) ∧ text[cut.pos.toNat + i]? = some b := by
  rw [Span.bytes, List.getElem?_take, List.getElem?_drop] at h
  by_cases hi : i < cut.stop.toNat - cut.pos.toNat
  · rw [if_pos hi] at h
    refine ⟨?_, h⟩
    simp only [Span.Covers]
    omega
  · rw [if_neg hi] at h
    cases h

theorem Span.bytes_bytes {s : Span} (hcut : 0 ≤ cut.pos) (h : s.Within cut) :
    (s.shift (-cut.pos)).bytes (cut.bytes text) = s.bytes text := by
  obtain ⟨hpos, hlt, hstop⟩ := h
  have hstart : cut.pos.toNat + (s.pos + -cut.pos).toNat = s.pos.toNat := by omega
  have hsize : min ((s.stop + -cut.pos).toNat - (s.pos + -cut.pos).toNat)
      (cut.stop.toNat - cut.pos.toNat - (s.pos + -cut.pos).toNat) =
      s.stop.toNat - s.pos.toNat := by omega
  rw [Span.bytes, Span.bytes, Span.bytes, List.drop_take, List.drop_drop, List.take_take]
  simp only [Span.shift]
  rw [hstart, hsize]

theorem Token.covers_shift {t : Token} (hcut : 0 ≤ cut.pos) (i : Nat) :
    (t.shift (-cut.pos)).Covers i ↔ t.Covers (cut.pos.toNat + i) := by
  simp only [Token.Covers, Token.shift]
  omega

/-- Tokens before a part stop too early to reach into it, and those behind it start too late. -/
theorem forall_not_covers_iff {front block rest : List Token} {i : Nat}
    (hfront : ∀ t ∈ front, t.stop ≤ cut.pos) (hrest : ∀ t ∈ rest, cut.stop ≤ t.pos)
    (hi : cut.Covers i) :
    (∀ t ∈ front ++ block ++ rest, ¬t.Covers i) ↔ ∀ t ∈ block, ¬t.Covers i := by
  obtain ⟨hpos, hstop⟩ := hi
  rw [List.forall_mem_append, List.forall_mem_append]
  constructor
  · intro hnone
    exact hnone.1.2
  · intro hnone
    refine ⟨⟨fun t ht hcovers => ?_, hnone⟩, fun t ht hcovers => ?_⟩
    · have hle := hfront t ht
      have hlt := hcovers.2
      omega
    · have hle := hrest t ht
      have hge := hcovers.1
      omega

/-- A part of a text that cuts no token in two has the tokens that lie in it. -/
theorem Tokenisation.part {front block rest : List Token}
    (h : Tokenisation text (front ++ block ++ rest)) (hcut : cut.Within ⟨0, text.length⟩)
    (hfront : ∀ t ∈ front, t.stop ≤ cut.pos) (hblock : ∀ t ∈ block, t.span.Within cut)
    (hrest : ∀ t ∈ rest, cut.stop ≤ t.pos) :
    Tokenisation (cut.bytes text) (block.map (Token.shift (-cut.pos))) := by
  have hstart : 0 ≤ cut.pos := hcut.1
  have hmem : ∀ t ∈ block, t ∈ front ++ block ++ rest := by
    intro t ht
    simp [ht]
  refine ⟨?within, ?apart, ?gaps, ?told, ?longest⟩
  case within =>
    refine List.forall_mem_map.2 fun t ht => ?_
    obtain ⟨hpos, hlt, hstop⟩ := hblock t ht
    simp only [Token.span] at hpos hlt hstop
    simp only [Token.shift, Span.length_bytes hcut]
    omega
  case apart =>
    have hsublist : block.Sublist (front ++ block ++ rest) := by simp
    refine List.pairwise_map.2 ((h.apart.sublist hsublist).imp fun hle => ?_)
    simp only [Token.shift]
    omega
  case gaps =>
    intro i b hb
    obtain ⟨hcovers, hbyte⟩ := Span.getElem?_bytes hstart hb
    rw [← h.gaps _ b hbyte, forall_not_covers_iff hfront hrest hcovers, List.forall_mem_map]
    simp only [Token.covers_shift hstart]
  case told =>
    refine List.forall_mem_map.2 fun t ht => ?_
    have hbytes : (t.shift (-cut.pos)).bytes (cut.bytes text) = t.bytes text :=
      Span.bytes_bytes hstart (hblock t ht)
    rw [hbytes]
    exact h.told t (hmem t ht)
  case longest =>
    refine List.forall_mem_map.2 fun t ht b hb => ?_
    have hbyte := (Span.getElem?_bytes hstart hb).2
    have hindex : cut.pos.toNat + (t.shift (-cut.pos)).stop.toNat = t.stop.toNat := by
      obtain ⟨hpos, hlt, -⟩ := hblock t ht
      simp only [Token.span] at hpos hlt
      simp only [Token.shift]
      omega
    rw [hindex] at hbyte
    exact h.longest t (hmem t ht) b hbyte

end Cut

/-! The tokens of a statement. -/

structure Ordered (toks : List Token) : Prop where
  nonempty : ∀ t ∈ toks, t.pos < t.stop
  apart : toks.Pairwise fun t u => t.stop ≤ u.pos

theorem Tokenisation.ordered {text : Bytes} {toks : List Token} (h : Tokenisation text toks) :
    Ordered toks :=
  ⟨fun t ht => (h.within t ht).2.1, h.apart⟩

theorem Ordered.sublist {toks part : List Token} (h : Ordered toks) (hpart : part.Sublist toks) :
    Ordered part :=
  ⟨fun t ht => h.nonempty t (hpart.subset ht), h.apart.sublist hpart⟩

theorem Ordered.stop_le {front rest : List Token} (h : Ordered (front ++ rest)) :
    ∀ t ∈ front, ∀ u ∈ rest, t.stop ≤ u.pos :=
  (List.pairwise_append.1 h.apart).2.2

theorem Ordered.within_ends {first last : Token} {between : List Token}
    (h : Ordered (first :: between ++ [last])) :
    ∀ t ∈ first :: between ++ [last], t.span.Within ⟨first.pos, last.stop⟩ := by
  intro t ht
  have hfirst : first.pos ≤ t.pos := by
    rcases List.mem_cons.1 ht with rfl | ht
    · exact Int.le_refl _
    · have hle := (List.pairwise_cons.1 h.apart).1 t ht
      have hlt := h.nonempty first (by simp)
      omega
  have hlast : t.stop ≤ last.stop := by
    rcases List.mem_append.1 ht with ht | ht
    · have hle := h.stop_le t ht last (by simp)
      have hlt := h.nonempty last (by simp)
      omega
    · exact Int.le_of_eq (congrArg Token.stop (List.mem_singleton.1 ht))
  exact ⟨hfirst, h.nonempty t ht, hlast⟩

theorem Lexer.Tells.bytes_eq {bs text : Bytes} {kind : Kind} (h : Tells bs kind text)
    (hkind : kind = .ident ∨ kind = .intLit) : bs = text := by
  cases h with
  | ident _ _ _ => rfl
  | intLit _ => rfl
  | _ => simp at hkind

namespace Grammar

section Block

variable {block toks : List Token} {s : Stmt} {ss : List Stmt}

theorem Block.span (h : Block block s) (hordered : Ordered block) :
    ∃ first ∈ block, ∃ last ∈ block, s.span? = some ⟨first.pos, last.stop⟩ ∧
      ∀ t ∈ block, t.span.Within ⟨first.pos, last.stop⟩ := by
  cases h with
  | exit word opening operand closing semi e hword hopen hoperand hclose hsemi =>
    have hends : Ordered ([word, opening, operand, closing] ++ [semi]) := hordered
    exact ⟨word, by simp, semi, by simp, rfl, hends.within_ends⟩
  | declare word name eq operand semi e hword hname heq hoperand hsemi =>
    have hends : Ordered ([word, name, eq, operand] ++ [semi]) := hordered
    exact ⟨word, by simp, semi, by simp, rfl, hends.within_ends⟩

theorem Operand.parts {t : Token} {e : Expr} (h : Operand t e) :
    e.parts = [(t.span, t.text)] ∧ (t.kind = .ident ∨ t.kind = .intLit) := by
  cases h with
  | literal hk => exact ⟨rfl, .inr hk⟩
  | var hk => exact ⟨rfl, .inl hk⟩

theorem Block.parts (h : Block block s) : ∃ words : List Token, words.Sublist block ∧
    s.parts = words.map (fun t => (t.span, t.text)) ∧
      ∀ t ∈ words, t.kind = .ident ∨ t.kind = .intLit := by
  cases h with
  | exit word opening operand closing semi e hword hopen hoperand hclose hsemi =>
    obtain ⟨hparts, hkind⟩ := hoperand.parts
    refine ⟨[operand], by simp, hparts, ?_⟩
    exact List.forall_mem_singleton.2 hkind
  | declare word name eq operand semi e hword hname heq hoperand hsemi =>
    obtain ⟨hparts, hkind⟩ := hoperand.parts
    refine ⟨[name, operand], ?_, congrArg (_ :: ·) hparts, ?_⟩
    · exact .cons _ (.cons_cons _ (.cons _ (.cons_cons _ (List.nil_sublist _))))
    · simp [hname, hkind]

theorem Spells.exists_block (h : Spells toks ss) (hs : s ∈ ss) :
    ∃ front block rest, toks = front ++ block ++ rest ∧ Block block s := by
  induction h with
  | nil => cases hs
  | @cons block rest first ss hblock _ ih =>
    rcases List.mem_cons.1 hs with rfl | hs
    · exact ⟨[], block, rest, rfl, hblock⟩
    · obtain ⟨front, block', rest, rfl, hblock'⟩ := ih hs
      refine ⟨block ++ front, block', rest, ?_, hblock'⟩
      simp only [List.append_assoc]

theorem Spells.span_starts (h : Spells toks ss) (hordered : Ordered toks) {span : Span}
    (hspan : span ∈ ss.filterMap Stmt.span?) : ∃ t ∈ toks, t.pos = span.pos := by
  obtain ⟨s, hs, hspan⟩ := List.mem_filterMap.1 hspan
  obtain ⟨front, block, rest, rfl, hblock⟩ := h.exists_block hs
  obtain ⟨first, hfirst, last, -, hspan', -⟩ := hblock.span (hordered.sublist (by simp))
  cases hspan.symm.trans hspan'
  exact ⟨first, by simp [hfirst], rfl⟩

theorem Spells.spans_apart (h : Spells toks ss) (hordered : Ordered toks) :
    (ss.filterMap Stmt.span?).Pairwise fun span next => span.stop ≤ next.pos := by
  induction h with
  | nil => exact .nil
  | @cons block rest s ss hblock hrest ih =>
    obtain ⟨_, -, last, hlast, hspan, -⟩ := hblock.span (hordered.sublist (by simp))
    have hordered' : Ordered rest := hordered.sublist (by simp)
    rw [List.filterMap_cons_some hspan]
    refine List.pairwise_cons.2 ⟨fun next hnext => ?_, ih hordered'⟩
    obtain ⟨t, ht, hpos⟩ := hrest.span_starts hordered' hnext
    rw [← hpos]
    exact hordered.stop_le last hlast t ht

theorem Spells.within_span (h : Spells toks ss) (hordered : Ordered toks) :
    ∀ t ∈ toks, ∃ span ∈ ss.filterMap Stmt.span?, t.span.Within span := by
  induction h with
  | nil => simp
  | @cons block rest s ss hblock hrest ih =>
    intro t ht
    obtain ⟨_, -, _, -, hspan, hwithin⟩ := hblock.span (hordered.sublist (by simp))
    rw [List.filterMap_cons_some hspan]
    rcases List.mem_append.1 ht with ht | ht
    · exact ⟨_, List.mem_cons_self, hwithin t ht⟩
    · obtain ⟨span, hmem, hwithin⟩ := ih (hordered.sublist (by simp)) t ht
      exact ⟨span, List.mem_cons_of_mem _ hmem, hwithin⟩

end Block

end Grammar

namespace Source

/-- The span cuts a statement out of the text: what it cuts out, read as a text of its own, is the
statement and nothing else. The parts of the statement are cut out by spans inside it that follow
each other. -/
structure Excerpt (text : Bytes) (s : Stmt) (span : Span) : Prop where
  within : span.Within ⟨0, text.length⟩
  alone : program (span.bytes text) = .ok ⟨[s.shift (-span.pos)]⟩
  parts : ∀ part ∈ s.parts, part.1.Within span ∧ part.1.bytes text = part.2
  apart : s.parts.Pairwise fun part next => part.1.stop ≤ next.1.pos

/-- The spans of a program divide the text it was read from into its statements and blanks. -/
structure Divides (text : Bytes) (p : Program) : Prop where
  known : p.WellFormed
  excerpt : ∀ s ∈ p.stmts, ∃ span, s.span? = some span ∧ Excerpt text s span
  apart : p.spans.Pairwise fun span next => span.stop ≤ next.pos
  blank : ∀ i b, text[i]? = some b → (∀ span ∈ p.spans, ¬span.Covers i) → isSpace b

theorem excerpt_of_block {text : Bytes} {front block rest : List Token} {s : Stmt}
    (h : Tokenisation text (front ++ block ++ rest)) (hblock : Block block s) :
    ∃ span, s.span? = some span ∧ Excerpt text s span := by
  have hmem : ∀ t ∈ block, t ∈ front ++ block ++ rest := by
    intro t ht
    simp [ht]
  have hordered : Ordered block := h.ordered.sublist (by simp)
  obtain ⟨first, hfirst, last, hlast, hspan, hinside⟩ := hblock.span hordered
  have hwithin : Span.Within ⟨first.pos, last.stop⟩ ⟨0, text.length⟩ := by
    have hle := (hinside first hfirst).2
    have hlt := hordered.nonempty first hfirst
    refine ⟨(h.within first (hmem first hfirst)).1, ?_, (h.within last (hmem last hlast)).2.2⟩
    simp only [Token.span] at hle ⊢
    omega
  refine ⟨_, hspan, hwithin, ?alone, ?parts, ?apart⟩
  case alone =>
    have hbefore : Ordered (front ++ block) := h.ordered.sublist (List.sublist_append_left _ _)
    have hpart := h.part hwithin (fun t ht => hbefore.stop_le t ht first hfirst) hinside
      (fun t ht => h.ordered.stop_le last (by simp [hlast]) t ht)
    refine program_eq_ok_iff.2 ⟨_, lex_eq_ok_iff_tokenisation.2 hpart, ?_⟩
    have hspells := Spells.cons (hblock.shift (-first.pos)) .nil
    rwa [List.append_nil] at hspells
  case parts =>
    obtain ⟨words, hsublist, hparts, hkinds⟩ := hblock.parts
    rw [hparts]
    refine List.forall_mem_map.2 fun t ht => ?_
    have ht' := hsublist.subset ht
    exact ⟨hinside t ht', (h.told t (hmem t ht')).bytes_eq (hkinds t ht)⟩
  case apart =>
    obtain ⟨words, hsublist, hparts, -⟩ := hblock.parts
    rw [hparts]
    exact List.pairwise_map.2 (hordered.apart.sublist hsublist)

theorem statement_spans_cut_out_statements {text : Bytes} {p : Program}
    (h : program text = .ok p) : Divides text p := by
  obtain ⟨toks, hlex, hspells⟩ := program_eq_ok_iff.1 h
  have htoks := lex_eq_ok_iff_tokenisation.1 hlex
  refine ⟨program_wellFormed h, ?excerpt, hspells.spans_apart htoks.ordered, ?blank⟩
  case excerpt =>
    intro s hs
    obtain ⟨front, block, rest, rfl, hblock⟩ := hspells.exists_block hs
    exact excerpt_of_block htoks hblock
  case blank =>
    intro i b hb hnone
    apply (htoks.gaps i b hb).1
    intro t ht hcovers
    obtain ⟨span, hspan, hpos, -, hstop⟩ := hspells.within_span htoks.ordered t ht
    refine hnone span hspan ⟨Int.le_trans hpos hcovers.1, Int.lt_of_lt_of_le hcovers.2 hstop⟩

theorem uneven_layout_is_divided : ∃ p, program (utf8 "\tjen x1=007 ;finu( x1\n);  ") = .ok p ∧
    Divides (utf8 "\tjen x1=007 ;finu( x1\n);  ") p ∧ p.spans = [⟨1, 13⟩, ⟨13, 24⟩] ∧
    program (utf8 "finu( x1\n);") = .ok ⟨[.exit ⟨0, 11⟩ (.var ⟨⟨6, 8⟩, utf8 "x1"⟩)]⟩ := by
  have h : program (utf8 "\tjen x1=007 ;finu( x1\n);  ") = .ok ⟨[
      .declare ⟨1, 13⟩ ⟨⟨5, 7⟩, utf8 "x1"⟩ (.literal ⟨8, 11⟩ (utf8 "007")),
      .exit ⟨13, 24⟩ (.var ⟨⟨19, 21⟩, utf8 "x1"⟩)]⟩ := by decide +kernel
  have hdivides := statement_spans_cut_out_statements h
  refine ⟨_, h, hdivides, rfl, ?_⟩
  obtain ⟨_, ⟨⟩, hexcerpt⟩ := hdivides.excerpt _ (List.mem_cons_of_mem _ List.mem_cons_self)
  exact hexcerpt.alone

end Source

end LetExit
