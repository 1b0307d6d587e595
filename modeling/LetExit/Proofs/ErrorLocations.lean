import Mathlib.Order.Bounds.Basic
import LetExit.Proofs.Derivations
import LetExit.Proofs.SyntaxErrors

/-!
# The exact place of a syntax error

A list of tokens that is refused begins with as many complete statements as it
can. Behind them stands something that enters no statement, or that enters one
and leaves its form at some place. The two forms are written down here place
by place, so the place is the first where form and tokens differ, or where the
tokens have come to an end. The error tells what was wanted there and what was
found.
-/

set_option autoImplicit false

namespace LetExit

namespace Grammar

open LetExit.Parser

def Admits : Wanted → Kind → Prop
  | .statement, _ => False
  | .expression, kind => kind = .intLit ∨ kind = .ident
  | .token wanted, kind => kind = wanted

def exitForm : List Wanted :=
  [.token .exit, .token .openParen, .expression, .token .closeParen, .token .semi]

def letForm : List Wanted :=
  [.token .letWord, .token .ident, .token .eq, .expression, .token .semi]

/-- The first place of a form that kinds do not fit: all before it do, and at the place itself
stands another kind or none. -/
def FirstMisfit (form : List Wanted) (kinds : List Kind) (i : Nat) : Prop :=
  (∀ j < i, ∃ wanted kind, form[j]? = some wanted ∧ kinds[j]? = some kind ∧ Admits wanted kind) ∧
    ∃ wanted, form[i]? = some wanted ∧ ∀ kind, kinds[i]? = some kind → ¬Admits wanted kind

/-- Kinds that are left over behind complete statements, with the place where they go wrong and
the complaint about it. -/
inductive Breaks (kinds : List Kind) : Nat → Bytes → Prop where
  | unentered (hexit : ¬[.exit, .openParen] <+: kinds) (hlet : ¬[.letWord, .ident, .eq] <+: kinds) :
      Breaks kinds 0 (utf8 "invalid statement")
  | exit {i : Nat} {complaint : Bytes} (hentered : [.exit, .openParen] <+: kinds)
      (hfirst : FirstMisfit exitForm kinds i)
      (hcomplaint : (i, complaint) ∈ [(2, utf8 "invalid expression"), (3, utf8 "expected ')'"),
        (4, utf8 "expected ';'")]) : Breaks kinds i complaint
  | declare {i : Nat} {complaint : Bytes} (hentered : [.letWord, .ident, .eq] <+: kinds)
      (hfirst : FirstMisfit letForm kinds i)
      (hcomplaint : (i, complaint) ∈ [(3, utf8 "invalid expression"), (4, utf8 "expected ';'")]) :
      Breaks kinds i complaint

def BeginsWith (toks : List Token) (n : Nat) : Prop :=
  ∃ blocks : List (List Token), blocks.length = n ∧ (∀ block ∈ blocks, IsBlock block) ∧
    blocks.flatten <+: toks

/-- The list goes wrong at the index: behind the most complete statements that it begins with, five
tokens each, tokens are left over, and they go wrong there. -/
def BreaksAt (toks : List Token) (i : Nat) (complaint : Bytes) : Prop :=
  ∃ m j, IsGreatest {n | BeginsWith toks n} m ∧ 5 * m < toks.length ∧
    Breaks ((toks.drop (5 * m)).map Token.kind) j complaint ∧ i = 5 * m + j

section FirstMisfit

variable {wanted : Wanted} {form : List Wanted} {kinds : List Kind} {i : Nat}

theorem firstMisfit_zero : FirstMisfit (wanted :: form) kinds 0 ↔
    ∀ kind, kinds.head? = some kind → ¬Admits wanted kind := by
  simp [FirstMisfit, List.head?_eq_getElem?]

theorem firstMisfit_token {kind : Kind} :
    FirstMisfit (.token kind :: form) kinds 0 ↔ kinds.head? ≠ some kind := by
  rw [firstMisfit_zero]
  constructor
  · intro h hhead
    exact h kind hhead rfl
  · rintro h _ hhead rfl
    exact h hhead

theorem firstMisfit_succ : FirstMisfit (wanted :: form) kinds (i + 1) ↔
    ∃ kind rest, kinds = kind :: rest ∧ Admits wanted kind ∧ FirstMisfit form rest i := by
  constructor
  · rintro ⟨hfits, hlast⟩
    obtain ⟨_, kind, hwanted, hkind, hadmits⟩ := hfits 0 (Nat.succ_pos i)
    cases hwanted
    cases kinds with
    | nil => cases hkind
    | cons k rest =>
      cases hkind
      exact ⟨kind, rest, rfl, hadmits, fun j hj => hfits (j + 1) (Nat.succ_lt_succ hj), hlast⟩
  · rintro ⟨kind, rest, rfl, hadmits, hfits, hlast⟩
    refine ⟨fun j hj => ?_, hlast⟩
    cases j with
    | zero => exact ⟨wanted, kind, rfl, rfl, hadmits⟩
    | succ j => exact hfits j (Nat.lt_of_succ_lt_succ hj)

theorem firstMisfit_cons {kind : Kind} : FirstMisfit (wanted :: form) (kind :: kinds) (i + 1) ↔
    Admits wanted kind ∧ FirstMisfit form kinds i := by
  rw [firstMisfit_succ]
  constructor
  · rintro ⟨_, _, ⟨⟩, h⟩
    exact h
  · intro h
    exact ⟨kind, kinds, rfl, h⟩

theorem FirstMisfit.le_length (h : FirstMisfit form kinds i) : i ≤ kinds.length := by
  by_contra hlt
  obtain ⟨_, kind, -, hkind, -⟩ := h.1 kinds.length (by omega)
  simp at hkind

theorem FirstMisfit.unique {j : Nat} (h : FirstMisfit form kinds i)
    (h' : FirstMisfit form kinds j) : i = j := by
  have apart : ∀ {i j : Nat}, FirstMisfit form kinds i → FirstMisfit form kinds j → ¬i < j := by
    intro i j hi hj hlt
    obtain ⟨wanted, kind, hwanted, hkind, hadmits⟩ := hj.1 i hlt
    obtain ⟨wanted', hwanted', hnot⟩ := hi.2
    cases hwanted.symm.trans hwanted'
    exact hnot kind hkind hadmits
  have hij := apart h h'
  have hji := apart h' h
  omega

theorem firstMisfit_exitForm : FirstMisfit exitForm (.exit :: .openParen :: kinds) (i + 2) ↔
    FirstMisfit [.expression, .token .closeParen, .token .semi] kinds i := by
  simp [exitForm, firstMisfit_cons, Admits]

theorem firstMisfit_letForm : FirstMisfit letForm (.letWord :: .ident :: .eq :: kinds) (i + 3) ↔
    FirstMisfit [.expression, .token .semi] kinds i := by
  simp [letForm, firstMisfit_cons, Admits]

end FirstMisfit

/-! Behind a beginning, the place that does not fit and the complaint are those of the reader. -/

section Leftover

variable {kinds : List Kind} {n : Nat}

theorem Misfit.breaks {wanted : Wanted} (h : Misfit kinds n wanted) :
    Breaks kinds n wanted.complaint := by
  cases h with
  | statement hexit hlet => exact .unentered hexit hlet
  | status h =>
    refine .exit ⟨_, rfl⟩ (firstMisfit_exitForm.2 ?_) (by decide)
    exact firstMisfit_zero.2 h
  | closing he h =>
    refine .exit ⟨_, rfl⟩ (firstMisfit_exitForm.2 ?_) (by decide)
    exact firstMisfit_cons.2 ⟨he, firstMisfit_token.2 h⟩
  | exitEnd he h =>
    refine .exit ⟨_, rfl⟩ (firstMisfit_exitForm.2 ?_) (by decide)
    exact firstMisfit_cons.2 ⟨he, firstMisfit_cons.2 ⟨rfl, firstMisfit_token.2 h⟩⟩
  | value h =>
    refine .declare ⟨_, rfl⟩ (firstMisfit_letForm.2 ?_) (by decide)
    exact firstMisfit_zero.2 h
  | letEnd he h =>
    refine .declare ⟨_, rfl⟩ (firstMisfit_letForm.2 ?_) (by decide)
    exact firstMisfit_cons.2 ⟨he, firstMisfit_token.2 h⟩

theorem Breaks.misfit {complaint : Bytes} (h : Breaks kinds n complaint) :
    ∃ wanted, Misfit kinds n wanted ∧ wanted.complaint = complaint := by
  cases h with
  | unentered hexit hlet => exact ⟨.statement, .statement hexit hlet, rfl⟩
  | exit hentered hfirst hcomplaint =>
    obtain ⟨rest, rfl⟩ := hentered
    simp only [List.mem_cons, Prod.mk.injEq, List.not_mem_nil, or_false] at hcomplaint
    rcases hcomplaint with ⟨rfl, rfl⟩ | ⟨rfl, rfl⟩ | ⟨rfl, rfl⟩
    · have hstatus := firstMisfit_zero.1 (firstMisfit_exitForm.1 hfirst)
      exact ⟨.expression, .status hstatus, rfl⟩
    · obtain ⟨e, tail, rfl, he, htail⟩ := firstMisfit_succ.1 (firstMisfit_exitForm.1 hfirst)
      exact ⟨.token .closeParen, .closing he (firstMisfit_token.1 htail), rfl⟩
    · obtain ⟨e, _, rfl, he, hclosing⟩ := firstMisfit_succ.1 (firstMisfit_exitForm.1 hfirst)
      obtain ⟨k, tail, rfl, hk, htail⟩ := firstMisfit_succ.1 hclosing
      cases hk
      exact ⟨.token .semi, .exitEnd he (firstMisfit_token.1 htail), rfl⟩
  | declare hentered hfirst hcomplaint =>
    obtain ⟨rest, rfl⟩ := hentered
    simp only [List.mem_cons, Prod.mk.injEq, List.not_mem_nil, or_false] at hcomplaint
    rcases hcomplaint with ⟨rfl, rfl⟩ | ⟨rfl, rfl⟩
    · have hvalue := firstMisfit_zero.1 (firstMisfit_letForm.1 hfirst)
      exact ⟨.expression, .value hvalue, rfl⟩
    · obtain ⟨e, tail, rfl, he, htail⟩ := firstMisfit_succ.1 (firstMisfit_letForm.1 hfirst)
      exact ⟨.token .semi, .letEnd he (firstMisfit_token.1 htail), rfl⟩

theorem Breaks.le_length {complaint : Bytes} (h : Breaks kinds n complaint) : n ≤ kinds.length := by
  cases h with
  | unentered hexit hlet => exact Nat.zero_le _
  | exit hentered hfirst hcomplaint => exact hfirst.le_length
  | declare hentered hfirst hcomplaint => exact hfirst.le_length

theorem Breaks.complaint_of_zero {complaint : Bytes} (h : Breaks kinds 0 complaint) :
    complaint = utf8 "invalid statement" := by
  cases h with
  | unentered hexit hlet => rfl
  | exit hentered hfirst hcomplaint => simp at hcomplaint
  | declare hentered hfirst hcomplaint => simp at hcomplaint

theorem Breaks.index_unique {n' : Nat} {complaint complaint' : Bytes} (h : Breaks kinds n complaint)
    (h' : Breaks kinds n' complaint') : n = n' := by
  have either : [.exit, .openParen] <+: kinds → ¬[.letWord, .ident, .eq] <+: kinds := by
    rintro ⟨rest, rfl⟩ ⟨_, hother⟩
    simp at hother
  cases h with
  | unentered hexit hlet =>
    cases h' with
    | unentered _ _ => rfl
    | exit hentered _ _ => exact absurd hentered hexit
    | declare hentered _ _ => exact absurd hentered hlet
  | exit hentered hfirst _ =>
    cases h' with
    | unentered hexit _ => exact absurd hentered hexit
    | exit _ hfirst' _ => exact hfirst.unique hfirst'
    | declare hentered' _ _ => exact absurd hentered' (either hentered)
  | declare hentered hfirst _ =>
    cases h' with
    | unentered _ hlet => exact absurd hentered hlet
    | exit hentered' _ _ => exact absurd hentered (either hentered')
    | declare _ hfirst' _ => exact hfirst.unique hfirst'

end Leftover

section Place

variable {toks : List Token} {i : Nat} {complaint : Bytes}

theorem BreaksAt.ne_nil (h : BreaksAt toks i complaint) : toks ≠ [] := by
  obtain ⟨m, j, -, hlt, -⟩ := h
  exact List.ne_nil_of_length_pos (Nat.zero_lt_of_lt hlt)

theorem BreaksAt.le_length (h : BreaksAt toks i complaint) : i ≤ toks.length := by
  obtain ⟨m, j, -, hlt, hbreaks, rfl⟩ := h
  have hle := hbreaks.le_length
  rw [List.length_map, List.length_drop] at hle
  omega

theorem BreaksAt.index_unique {i' : Nat} {complaint' : Bytes} (h : BreaksAt toks i complaint)
    (h' : BreaksAt toks i' complaint') : i = i' := by
  obtain ⟨m, j, hm, -, hbreaks, rfl⟩ := h
  obtain ⟨m', j', hm', -, hbreaks', rfl⟩ := h'
  obtain rfl := hm.unique hm'
  rw [hbreaks.index_unique hbreaks']

theorem BreaksAt.complaint_of_zero (h : BreaksAt toks 0 complaint) :
    complaint = utf8 "invalid statement" := by
  obtain ⟨m, j, -, -, hbreaks, hzero⟩ := h
  obtain rfl : j = 0 := by omega
  exact hbreaks.complaint_of_zero

end Place

/-! Complete statements in front. -/

theorem IsBlock.length {block : List Token} (h : IsBlock block) : block.length = 5 := by
  obtain ⟨s, hs⟩ := isBlock_iff.1 h
  exact hs.length

theorem length_flatten_blocks {blocks : List (List Token)} (h : ∀ block ∈ blocks, IsBlock block) :
    blocks.flatten.length = 5 * blocks.length := by
  induction blocks with
  | nil => rfl
  | cons block blocks ih =>
    obtain ⟨hblock, hblocks⟩ := List.forall_mem_cons.1 h
    rw [List.flatten_cons, List.length_append, hblock.length, ih hblocks, List.length_cons]
    omega

theorem Misfit.not_isBlock_prefix {block rest : List Token} {n : Nat} {wanted : Wanted}
    (h : Misfit (rest.map Token.kind) n wanted) (hblock : IsBlock block) : ¬block <+: rest := by
  rintro ⟨after, rfl⟩
  obtain ⟨s, hs⟩ := isBlock_iff.1 hblock
  have hok : stmt ⟨block ++ after, 0⟩ = (.ok s, ⟨after, 0⟩) := stmt_eq_ok_iff.2 ⟨block, hs, rfl⟩
  have herror : stmt ⟨block ++ after, 0⟩ = _ := stmt_eq_error_iff.2 ⟨n, wanted, h, rfl, rfl⟩
  rw [hok] at herror
  cases herror

theorem BeginsWith.le {blocks : List (List Token)} {rest : List Token} {n : Nat}
    (h : BeginsWith (blocks.flatten ++ rest) n) (hblocks : ∀ block ∈ blocks, IsBlock block)
    (hrest : ∀ block, IsBlock block → ¬block <+: rest) : n ≤ blocks.length := by
  induction blocks generalizing n with
  | nil =>
    obtain ⟨others, rfl, hothers, hprefix⟩ := h
    cases others with
    | nil => exact Nat.le_refl 0
    | cons block others =>
      refine absurd ?_ (hrest block (hothers block (by simp)))
      exact (List.prefix_append block others.flatten).trans hprefix
  | cons block blocks ih =>
    obtain ⟨others, rfl, hothers, hprefix⟩ := h
    obtain ⟨hblock, hblocks⟩ := List.forall_mem_cons.1 hblocks
    cases others with
    | nil => exact Nat.zero_le _
    | cons block' others =>
      obtain ⟨hblock', hothers⟩ := List.forall_mem_cons.1 hothers
      -- both lists of blocks begin with the same five tokens
      obtain ⟨after, hsplit⟩ := hprefix
      rw [List.flatten_cons, List.flatten_cons, List.append_assoc, List.append_assoc] at hsplit
      obtain ⟨-, hsplit⟩ := List.append_inj hsplit (hblock'.length.trans hblock.length.symm)
      have hle := ih ⟨others, rfl, hothers, after, hsplit⟩ hblocks
      exact Nat.succ_le_succ hle

theorem stuck_iff_breaksAt {toks : List Token} {i : Nat} {complaint : Bytes} :
    (∃ wanted, Stuck (toks.map Token.kind) i wanted ∧ wanted.complaint = complaint) ↔
      BreaksAt toks i complaint := by
  constructor
  · rintro ⟨wanted, ⟨_, _, j, hkinds, hfront, hne, hmisfit, rfl⟩, rfl⟩
    obtain ⟨front, rest, rfl, rfl, rfl⟩ := List.map_eq_append_iff.1 hkinds
    obtain ⟨blocks, rfl, hblocks⟩ := exists_spells_iff_blocks.1 (sentence_iff.1 hfront)
    have hlength := length_flatten_blocks hblocks
    have hbegins : BeginsWith (blocks.flatten ++ rest) blocks.length :=
      ⟨blocks, rfl, hblocks, List.prefix_append _ _⟩
    refine ⟨blocks.length, j, ⟨hbegins, fun n hn => ?_⟩, ?_, ?_, ?_⟩
    · exact BeginsWith.le hn hblocks fun block hblock => hmisfit.not_isBlock_prefix hblock
    · have hpos : 0 < rest.length := List.length_pos_iff.2 (by simpa using hne)
      rw [List.length_append, hlength]
      omega
    · rw [← hlength, List.drop_left]
      exact hmisfit.breaks
    · rw [List.length_map, hlength]
  · rintro ⟨m, j, ⟨⟨blocks, rfl, hblocks, rest, rfl⟩, -⟩, hlt, hbreaks, rfl⟩
    have hlength := length_flatten_blocks hblocks
    rw [← hlength, List.drop_left] at hbreaks
    rw [List.length_append, hlength] at hlt
    obtain ⟨wanted, hmisfit, hcomplaint⟩ := hbreaks.misfit
    have hfront := sentence_iff.2 (exists_spells_iff_blocks.2 ⟨blocks, rfl, hblocks⟩)
    refine ⟨wanted, ⟨_, _, j, List.map_append, hfront, ?_, hmisfit, ?_⟩, hcomplaint⟩
    · rintro hnil
      rw [List.map_eq_nil_iff.1 hnil, List.length_nil] at hlt
      omega
    · rw [List.length_map, hlength]

end Grammar

open Grammar LetExit.Parser

/-- The error is about the token at the index, or, if there is none, about the end of the list. -/
structure SyntaxError.IsAbout (e : SyntaxError) (toks : List Token) (i : Nat) : Prop where
  token : ∀ t, toks[i]? = some t → e.got = some t ∧ e.pos = t.pos
  ending : toks[i]? = none → e.got = none ∧ ∃ t, toks.getLast? = some t ∧ e.pos = t.stop

theorem SyntaxError.IsAbout.got {e : SyntaxError} {toks : List Token} {i : Nat}
    (h : e.IsAbout toks i) : toks[i]? = e.got := by
  cases ht : toks[i]? with
  | some t => exact (h.token t ht).1.symm
  | none => exact (h.ending ht).1.symm

@[simp]
theorem Parser.Cursor.complaint_error (c : Cursor) (wanted : Wanted) :
    (c.error wanted).complaint = wanted.complaint := by
  unfold Cursor.error
  split <;> rfl

theorem isAbout_error {toks : List Token} (hne : toks ≠ []) (i : Nat) (wanted : Wanted) :
    ((Cursor.atIndex toks i).error wanted).IsAbout toks i := by
  refine ⟨fun t ht => ?_, fun hnone => ?_⟩
  · rw [Cursor.atIndex_of_some ht]
    exact ⟨rfl, rfl⟩
  · rw [Cursor.atIndex_of_none hnone]
    have hlast := List.getLast?_eq_some_getLast hne
    refine ⟨rfl, _, hlast, ?_⟩
    simp [Cursor.error, Cursor.ofTokens, hlast]

theorem SyntaxError.IsAbout.unique {toks : List Token} {i : Nat} {e e' : SyntaxError}
    (h : e.IsAbout toks i) (h' : e'.IsAbout toks i) (hcomplaint : e.complaint = e'.complaint) :
    e = e' := by
  obtain ⟨pos, complaint, got⟩ := e
  obtain ⟨pos', complaint', got'⟩ := e'
  cases hcomplaint
  cases ht : toks[i]? with
  | some t =>
    obtain ⟨rfl, rfl⟩ := h.token t ht
    obtain ⟨rfl, rfl⟩ := h'.token t ht
    rfl
  | none =>
    obtain ⟨rfl, last, hlast, rfl⟩ := h.ending ht
    obtain ⟨rfl, last', hlast', rfl⟩ := h'.ending ht
    cases hlast.symm.trans hlast'
    rfl

/-- A list of tokens is refused exactly if it goes wrong somewhere. The error has the complaint that
belongs to the place and is about what stands there. -/
theorem syntax_errors_are_located (toks : List Token) (e : SyntaxError) :
    parse toks = .error e ↔ ∃ i, BreaksAt toks i e.complaint ∧ e.IsAbout toks i := by
  rw [parse_eq_error_iff]
  constructor
  · rintro ⟨i, wanted, hstuck, rfl⟩
    have hbreaks := stuck_iff_breaksAt.1 ⟨wanted, hstuck, rfl⟩
    rw [Cursor.complaint_error]
    exact ⟨i, hbreaks, isAbout_error hbreaks.ne_nil i wanted⟩
  · rintro ⟨i, hbreaks, habout⟩
    obtain ⟨wanted, hstuck, hcomplaint⟩ := stuck_iff_breaksAt.2 hbreaks
    refine ⟨i, wanted, hstuck, ?_⟩
    apply habout.unique (isAbout_error hbreaks.ne_nil i wanted)
    rw [Cursor.complaint_error, hcomplaint]

/-- Behind one complete statement a declaration has come to the end of the list, whose last token
stops at 14. -/
example : parse [⟨.exit, [], 0, 4⟩, ⟨.openParen, [], 4, 5⟩, ⟨.intLit, utf8 "1", 5, 6⟩,
      ⟨.closeParen, [], 6, 7⟩, ⟨.semi, [], 7, 8⟩, ⟨.letWord, [], 8, 11⟩, ⟨.ident, utf8 "x", 12, 13⟩,
      ⟨.eq, [], 13, 14⟩] = .error ⟨14, utf8 "invalid expression", none⟩ := by
  decide +kernel

end LetExit
