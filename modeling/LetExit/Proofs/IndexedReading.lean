import LetExit.Proofs.Parsing

/-!
# Reading by index

The statements of a list of tokens can also be read with a number as cursor,
which counts the tokens read so far. Each look at the list is then an access
that may fall outside of it: the name of a declaration, the tokens where a
statement begins and ends, and the last of all tokens are taken without a
check. Here every such access is written out, and reading has no outcome if
one of them misses. It never does: reading by index takes the same way as
reading off the list itself.
-/

set_option autoImplicit false

namespace LetExit

namespace Parser

namespace Indexed

/-- The outcome of reading and the index where it stopped; none if an access was outside the
list. -/
abbrev Run (α : Type) := Option (Except SyntaxError α × Nat)

def Run.andThen {α β : Type} (run : Run α) (next : α → Nat → Run β) : Run β :=
  match run with
  | none => none
  | some (.error e, i) => some (.error e, i)
  | some (.ok a, i) => next a i

section

variable (toks : List Token)

def peek (i : Nat) : Option (Option Token) :=
  if i < toks.length then toks[i]?.map some else some none

def isAt (i : Nat) (kind : Kind) : Option Bool :=
  (peek toks i).map fun found => found.any (·.kind == kind)

def fail {α : Type} (i : Nat) (wanted : Wanted) : Run α :=
  match peek toks i with
  | none => none
  | some (some t) => some (.error ⟨t.pos, wanted.complaint, some t⟩, i)
  | some none =>
    if toks.length = 0 then some (.error ⟨0, wanted.complaint, none⟩, i)
    else toks[toks.length - 1]?.map fun t => (.error ⟨t.stop, wanted.complaint, none⟩, i)

def expect (i : Nat) (kind : Kind) : Run Unit :=
  match isAt toks i kind with
  | none => none
  | some false => fail toks i (.token kind)
  | some true => some (.ok (), i + 1)

def expr (i : Nat) : Run Expr :=
  match peek toks i with
  | none => none
  | some none => fail toks i .expression
  | some (some t) =>
    match t.kind with
    | .intLit => some (.ok (.literal t.span t.text), i + 1)
    | .ident => some (.ok (.var t.toName), i + 1)
    | _ => fail toks i .expression

def spanOf (first i : Nat) : Option Span :=
  if i = 0 then none
  else
    match toks[first]?, toks[i - 1]? with
    | some t, some u => some ⟨t.pos, u.stop⟩
    | _, _ => none

def finish (first i : Nat) (build : Span → Stmt) : Run Stmt :=
  (spanOf toks first i).map fun span => (.ok (build span), i)

def stmt (i : Nat) : Run Stmt :=
  match isAt toks i .exit, isAt toks (i + 1) .openParen, isAt toks i .letWord,
      isAt toks (i + 1) .ident, isAt toks (i + 2) .eq with
  | some exit, some opening, some letWord, some name, some eq =>
    if exit && opening then
      (expr toks (i + 2)).andThen fun status j =>
      (expect toks j .closeParen).andThen fun _ j =>
      (expect toks j .semi).andThen fun _ j =>
      finish toks i j fun span => .exit span status
    else if letWord && name && eq then
      match toks[i + 1]? with
      | none => none
      | some t =>
        (expr toks (i + 3)).andThen fun value j =>
        (expect toks j .semi).andThen fun _ j =>
        finish toks i j fun span => .declare span t.toName value
    else fail toks i .statement
  | _, _, _, _, _ => none

end

/-- Reading by index made no access outside the list and went the way of reading off it. -/
def Agrees {α : Type} (toks : List Token) (run : Run α) (step : Step α) : Prop :=
  ∃ outcome j, j ≤ toks.length ∧ run = some (outcome, j) ∧ step = (outcome, Cursor.atIndex toks j)

section

variable {α β : Type} {toks : List Token} {i : Nat}

theorem agrees_ok (a : α) (hi : i ≤ toks.length) :
    Agrees toks (some (.ok a, i)) (.ok a, Cursor.atIndex toks i) :=
  ⟨.ok a, i, hi, rfl, rfl⟩

theorem Agrees.andThen {run : Run α} {step : Step α} {next : α → Nat → Run β}
    {next' : α → Cursor → Step β} (h : Agrees toks run step)
    (hnext : ∀ a j, j ≤ toks.length → step = (.ok a, Cursor.atIndex toks j) →
      Agrees toks (next a j) (next' a (Cursor.atIndex toks j))) :
    Agrees toks (run.andThen next) (step.andThen next') := by
  obtain ⟨outcome, j, hj, rfl, rfl⟩ := h
  cases outcome with
  | error e => exact ⟨.error e, j, hj, rfl, rfl⟩
  | ok a => exact hnext a j hj rfl

theorem peek_eq (toks : List Token) (i : Nat) : peek toks i = some toks[i]? := by
  unfold peek
  by_cases hi : i < toks.length
  · rw [if_pos hi, List.getElem?_eq_getElem hi]
    rfl
  · rw [if_neg hi, List.getElem?_eq_none (by omega)]

theorem isAt_eq (toks : List Token) (i : Nat) (kind : Kind) :
    isAt toks i kind = some (toks[i]?.any (·.kind == kind)) := by
  rw [isAt, peek_eq]
  rfl

theorem fail_eq (toks : List Token) (i : Nat) (wanted : Wanted) :
    (fail toks i wanted : Run α) = some (.error ((Cursor.atIndex toks i).error wanted), i) := by
  rw [fail, peek_eq]
  cases h : toks[i]? with
  | some t => rw [Cursor.atIndex_of_some h]; rfl
  | none =>
    rw [Cursor.atIndex_of_none h]
    by_cases hlen : toks.length = 0
    · rw [if_pos hlen, List.length_eq_zero_iff.1 hlen]
      rfl
    · have hlast : toks[toks.length - 1]? = toks.getLast? := List.getLast?_eq_getElem?.symm
      have hne : toks ≠ [] := by simpa using hlen
      rw [if_neg hlen, hlast, Cursor.ofTokens, List.getLast?_eq_some_getLast hne]
      rfl

theorem fail_agrees (wanted : Wanted) (hi : i ≤ toks.length) :
    Agrees toks (fail toks i wanted : Run α) ((Cursor.atIndex toks i).fail wanted) :=
  ⟨.error ((Cursor.atIndex toks i).error wanted), i, hi, fail_eq toks i wanted, rfl⟩

theorem expect_andThen_agrees {kind : Kind} {next : Unit → Nat → Run β}
    {next' : Token → Cursor → Step β} (hi : i ≤ toks.length)
    (hnext : ∀ t, toks[i]? = some t →
      Agrees toks (next () (i + 1)) (next' t (Cursor.atIndex toks (i + 1)))) :
    Agrees toks ((expect toks i kind).andThen next)
      ((Parser.expect kind (Cursor.atIndex toks i)).andThen next') := by
  have hfail : (fail toks i (.token kind) : Run Unit).andThen next = fail toks i (.token kind) := by
    rw [fail_eq, fail_eq]
    rfl
  have hagrees := fail_agrees (α := β) (.token kind) hi
  rw [expect, isAt_eq]
  cases h : toks[i]? with
  | none =>
    rw [Cursor.atIndex_of_none h] at hagrees ⊢
    exact hfail ▸ hagrees
  | some t =>
    rw [Cursor.atIndex_of_some h] at hagrees ⊢
    by_cases hk : t.kind = kind
    · simp only [Option.any_some, hk, beq_self_eq_true, Parser.expect, if_true]
      exact hnext t h
    · simp only [Option.any_some, hk, beq_eq_false_iff_ne.2, ne_eq, not_false_eq_true,
        Parser.expect, if_false, hfail]
      exact hagrees

theorem expr_agrees (hi : i ≤ toks.length) :
    Agrees toks (expr toks i) (Parser.expr (Cursor.atIndex toks i)) := by
  rw [expr, peek_eq]
  have hfail := fail_agrees (α := Expr) .expression hi
  cases h : toks[i]? with
  | none => simpa only [Parser.expr, Cursor.atIndex_of_none h] using hfail
  | some t =>
    obtain ⟨hlt, -⟩ := List.getElem?_eq_some_iff.1 h
    rw [Cursor.atIndex_of_some h] at hfail ⊢
    cases hk : t.kind with
    | intLit => simp only [Parser.expr, hk]; exact agrees_ok _ hlt
    | ident => simp only [Parser.expr, hk]; exact agrees_ok _ hlt
    | _ => simp only [Parser.expr, hk]; exact hfail

theorem finish_agrees {first : Nat} {t u : Token} (build : Span → Stmt)
    (hfirst : toks[first]? = some t) (hlast : toks[i]? = some u) :
    Agrees toks (finish toks first (i + 1) build)
      (.ok (build ⟨t.pos, u.stop⟩), Cursor.atIndex toks (i + 1)) := by
  obtain ⟨hlt, -⟩ := List.getElem?_eq_some_iff.1 hlast
  have hspan : spanOf toks first (i + 1) = some ⟨t.pos, u.stop⟩ := by
    rw [spanOf, if_neg (by omega), Nat.add_sub_cancel, hfirst, hlast]
  rw [finish, hspan]
  exact agrees_ok _ hlt

theorem exitFrom_agrees {first : Nat} {t : Token} (hfirst : toks[first]? = some t)
    (hi : i ≤ toks.length) :
    Agrees toks
      ((expr toks i).andThen fun status j =>
        (expect toks j .closeParen).andThen fun _ j =>
        (expect toks j .semi).andThen fun _ j =>
        finish toks first j fun span => .exit span status)
      (Parser.exitFrom t (Cursor.atIndex toks i)) := by
  refine (expr_agrees hi).andThen fun status j hj _ => ?_
  refine expect_andThen_agrees hj fun closing hclosing => ?_
  obtain ⟨hlt, -⟩ := List.getElem?_eq_some_iff.1 hclosing
  exact expect_andThen_agrees hlt fun semi hsemi => finish_agrees _ hfirst hsemi

theorem declareFrom_agrees {first : Nat} {t name : Token} (hfirst : toks[first]? = some t)
    (hi : i ≤ toks.length) :
    Agrees toks
      ((expr toks i).andThen fun value j =>
        (expect toks j .semi).andThen fun _ j =>
        finish toks first j fun span => .declare span name.toName value)
      (Parser.declareFrom t name (Cursor.atIndex toks i)) := by
  refine (expr_agrees hi).andThen fun value j hj _ => ?_
  exact expect_andThen_agrees hj fun semi hsemi => finish_agrees _ hfirst hsemi

theorem cons_isPrefix_kinds_iff {kind : Kind} {kinds : List Kind} :
    kind :: kinds <+: (Cursor.atIndex toks i).kinds ↔
      toks[i]?.any (·.kind == kind) ∧ kinds <+: (Cursor.atIndex toks (i + 1)).kinds := by
  cases h : toks[i]? with
  | none => simp [Cursor.atIndex_of_none h, Cursor.kinds]
  | some t =>
    have hnext : (Cursor.atIndex toks (i + 1)).kinds = (toks.drop (i + 1)).map Token.kind := rfl
    rw [Cursor.atIndex_of_some h, hnext, Cursor.kinds, List.map_cons, List.cons_prefix_cons]
    rw [Option.any_some, beq_iff_eq, eq_comm]

theorem stmt_agrees (hi : i ≤ toks.length) :
    Agrees toks (stmt toks i) (Parser.stmt (Cursor.atIndex toks i)) := by
  simp only [stmt, isAt_eq]
  rcases stmt_cases (Cursor.atIndex toks i) with
    ⟨first, second, rest, last, hc, hfirst, hsecond, hstmt⟩ |
    ⟨first, second, third, rest, last, hc, hfirst, hsecond, hthird, hstmt⟩ | ⟨hexit, hlet, hstmt⟩
  · obtain ⟨h₀, hc⟩ := Cursor.atIndex_cons hc
    obtain ⟨h₁, hc⟩ := Cursor.atIndex_cons hc
    obtain ⟨hlt, -⟩ := List.getElem?_eq_some_iff.1 h₁
    simp only [h₀, h₁, Option.any_some, hfirst, hsecond, beq_self_eq_true, Bool.and_self, if_true]
    rw [hstmt, ← hc]
    exact exitFrom_agrees h₀ hlt
  · obtain ⟨h₀, hc⟩ := Cursor.atIndex_cons hc
    obtain ⟨h₁, hc⟩ := Cursor.atIndex_cons hc
    obtain ⟨h₂, hc⟩ := Cursor.atIndex_cons hc
    obtain ⟨hlt, -⟩ := List.getElem?_eq_some_iff.1 h₂
    simp only [h₀, h₁, h₂, Option.any_some, hfirst, hsecond, hthird, beq_self_eq_true,
      Bool.and_self, if_true]
    rw [hstmt, ← hc]
    exact declareFrom_agrees h₀ hlt
  · simp only [cons_isPrefix_kinds_iff, List.nil_prefix, and_true] at hexit hlet
    rw [if_neg (by simpa using hexit), if_neg (by simpa [and_assoc] using hlet), hstmt]
    exact fail_agrees .statement hi

theorem stmt_index_lt {s : Stmt} {j : Nat} (hi : i ≤ toks.length)
    (h : stmt toks i = some (.ok s, j)) : j ≤ toks.length ∧ i < j := by
  obtain ⟨outcome, j', hj, hrun, hstep⟩ := stmt_agrees hi
  rw [h] at hrun
  cases hrun
  have hlen := stmt_length_lt hstep
  rw [Cursor.length_atIndex, Cursor.length_atIndex] at hlen
  omega

end

def stmts (toks : List Token) (i : Nat) : Run (List Stmt) :=
  if hi : i < toks.length then
    match h : stmt toks i with
    | none => none
    | some (.error e, j) => some (.error e, j)
    | some (.ok s, j) =>
      have := stmt_index_lt (Nat.le_of_lt hi) h
      (stmts toks j).andThen fun ss k => some (.ok (s :: ss), k)
  else some (.ok [], i)
termination_by toks.length - i

def parse (toks : List Token) : Option (Except SyntaxError Program) :=
  (stmts toks 0).map fun run => run.1.map Program.mk

theorem stmts_of_lt {toks : List Token} {i : Nat} (hi : i < toks.length) :
    stmts toks i = (stmt toks i).andThen fun s j =>
      (stmts toks j).andThen fun ss k => some (.ok (s :: ss), k) := by
  rw [stmts, dif_pos hi]
  split
  · rename_i h; rw [h]; rfl
  · rename_i h; rw [h]; rfl
  · rename_i h; simp only [h]; rfl

theorem stmts_agrees {toks : List Token} {i : Nat} (hi : i ≤ toks.length) :
    Agrees toks (stmts toks i) (Parser.stmts (Cursor.atIndex toks i)) := by
  by_cases hlt : i < toks.length
  · have hrest : (Cursor.atIndex toks i).rest ≠ [] := by
      apply List.ne_nil_of_length_pos
      rw [Cursor.length_atIndex]
      omega
    rw [stmts_of_lt hlt, stmts_of_ne_nil hrest]
    refine (stmt_agrees hi).andThen fun s j hj hs => ?_
    have hless : toks.length - j < toks.length - i := by
      simpa only [Cursor.length_atIndex] using stmt_length_lt hs
    exact (stmts_agrees hj).andThen fun ss k hk _ => agrees_ok _ hk
  · have hrest : (Cursor.atIndex toks i).rest = [] := by
      apply List.eq_nil_of_length_eq_zero
      rw [Cursor.length_atIndex]
      omega
    rw [stmts, dif_neg hlt, Parser.stmts, if_pos hrest]
    exact agrees_ok [] hi
termination_by toks.length - i

/-- No access of reading by index is outside the list, and its outcome is that of parsing. -/
theorem parse_eq_some (toks : List Token) : parse toks = some (LetExit.parse toks) := by
  obtain ⟨outcome, j, -, hrun, hstep⟩ := stmts_agrees (Nat.zero_le toks.length)
  have hstart : Cursor.atIndex toks 0 = .ofTokens toks := rfl
  rw [parse, hrun, parse_eq_map, ← hstart, hstep]
  rfl

end Indexed

end Parser

end LetExit
