import LetExit.Proofs.ErrorLocations

/-!
# Taking up reading again

A cursor can be asked for a program again after it has met an error, and goes
on from where it stopped. One call is described by the index it starts from,
its answer and the index it stops at; only the tokens from the start on
matter. The run of all calls follows from this: the index moves forward until
a call leaves it where it is, and from then on nothing changes any more.
-/

set_option autoImplicit false

namespace LetExit

open Grammar

namespace Parser

def Cursor.beforeCall (c : Cursor) : Nat → Cursor
  | 0 => c
  | n + 1 => (program (c.beforeCall n)).2

def callIndex (toks : List Token) (n : Nat) : Nat :=
  toks.length - ((Cursor.ofTokens toks).beforeCall n).rest.length

def answer (toks : List Token) (n : Nat) : Except SyntaxError Program :=
  (program ((Cursor.ofTokens toks).beforeCall n)).1

theorem Cursor.beforeCall_succ (c : Cursor) (n : Nat) :
    c.beforeCall (n + 1) = Cursor.beforeCall (program c).2 n := by
  induction n with
  | zero => rfl
  | succ n ih => exact congrArg (fun c => (program c).2) ih

theorem repeated_eq_map (calls : Nat) (c : Cursor) :
    repeated calls c = (List.range calls).map fun n => (program (c.beforeCall n)).1 := by
  induction calls generalizing c with
  | zero => rfl
  | succ calls ih =>
    have hfirst : repeated (calls + 1) c = (program c).1 :: repeated calls (program c).2 := rfl
    rw [hfirst, ih, List.range_succ_eq_map, List.map_cons, List.map_map]
    simp only [Function.comp_def, Cursor.beforeCall_succ]
    rfl

/-! What one call does. -/

theorem program_eq_ok_iff {c c' : Cursor} {p : Program} :
    program c = (.ok p, c') ↔ stmts c = (.ok p.stmts, c') := by
  rw [program, andThen_eq_ok_iff]
  constructor
  · rintro ⟨ss, _, hs, ⟨⟩⟩
    exact hs
  · intro hs
    exact ⟨p.stmts, c', hs, rfl⟩

theorem program_eq_error_iff {c c' : Cursor} {e : SyntaxError} :
    program c = (.error e, c') ↔ stmts c = (.error e, c') := by
  rw [program, andThen_eq_error_iff]
  simp

section Call

variable {toks : List Token} {i j k : Nat}

theorem Cursor.atIndex_drop (hi : i < toks.length) (k : Nat) :
    Cursor.atIndex (toks.drop i) k = Cursor.atIndex toks (i + k) := by
  have hlast : (toks.drop i).getLast? = toks.getLast? := by
    rw [List.getLast?_drop, if_neg (by omega)]
  simp only [Cursor.atIndex, Cursor.advance, Cursor.ofTokens, hlast, List.drop_drop]

/-- A call that starts at the index `i` answers as parsing does on the tokens from there on. It
stops behind the last token, or where these tokens go wrong. -/
inductive Call (toks : List Token) (i : Nat) : Except SyntaxError Program → Nat → Prop where
  | finished {p : Program} (h : parse (toks.drop i) = .ok p) : Call toks i (.ok p) toks.length
  | stopped {e : SyntaxError} {k : Nat} (h : parse (toks.drop i) = .error e)
      (hbreaks : BreaksAt (toks.drop i) k e.complaint) (habout : e.IsAbout (toks.drop i) k)
      (hle : i + k ≤ toks.length) : Call toks i (.error e) (i + k)

theorem call_atIndex (hi : i ≤ toks.length) :
    ∃ outcome j, Call toks i outcome j ∧
      program (Cursor.atIndex toks i) = (outcome, Cursor.atIndex toks j) := by
  cases hparse : parse (toks.drop i) with
  | ok p =>
    refine ⟨_, _, .finished hparse, program_eq_ok_iff.2 (stmts_eq_ok_iff.2 ⟨?_, ?_⟩)⟩
    · exact parse_eq_ok_iff.1 hparse
    · rw [Cursor.atIndex, Cursor.advance, Cursor.ofTokens, List.drop_length]
      rfl
  | error e =>
    obtain ⟨k, wanted, hstuck, he⟩ := parse_eq_error_iff.1 hparse
    have hbreaks := stuck_iff_breaksAt.1 ⟨wanted, hstuck, rfl⟩
    have hle := hbreaks.le_length
    -- an empty list does not go wrong, so the position of the error is that of the whole list
    have hlt : i < toks.length := by
      by_contra hge
      exact hbreaks.ne_nil (List.drop_eq_nil_iff.2 (by omega))
    have habout := isAbout_error hbreaks.ne_nil k wanted
    rw [List.length_drop] at hle
    rw [← he] at habout
    refine ⟨_, i + k, .stopped hparse ?_ habout (by omega), program_eq_error_iff.2 ?_⟩
    · rw [he, Cursor.complaint_error]
      exact hbreaks
    · refine stmts_eq_error_iff.2 ⟨k, wanted, hstuck, ?_, ?_⟩
      · simp only [Cursor.atIndex, Cursor.advance, List.drop_drop]
      · rw [he, Cursor.atIndex_drop hlt]

theorem Call.answer_eq {outcome : Except SyntaxError Program} (h : Call toks i outcome j) :
    outcome = parse (toks.drop i) := by
  cases h with
  | finished h => exact h.symm
  | stopped h _ _ _ => exact h.symm

theorem Call.le {outcome : Except SyntaxError Program} (h : Call toks i outcome j)
    (hi : i ≤ toks.length) : i ≤ j ∧ j ≤ toks.length := by
  cases h with
  | finished _ => exact ⟨hi, Nat.le_refl _⟩
  | stopped _ _ _ hle => exact ⟨Nat.le_add_right _ _, hle⟩

theorem Call.index_of_ok {p : Program} (h : Call toks i (.ok p) j) : j = toks.length := by
  cases h
  rfl

theorem Call.index_of_error {e : SyntaxError} (h : Call toks i (.error e) j) :
    toks[j]? = e.got ∧ ∃ k, BreaksAt (toks.drop i) k e.complaint ∧ j = i + k := by
  cases h with
  | @stopped _ k _ hbreaks habout _ =>
    refine ⟨?_, k, hbreaks, rfl⟩
    rw [← List.getElem?_drop, habout.got]

/-- A call stays where it is if there is nothing left, or nothing that enters a statement. -/
theorem Call.eq_start_iff {outcome : Except SyntaxError Program} (h : Call toks i outcome j)
    (hi : i ≤ toks.length) :
    j = i ↔ toks.drop i = [] ∨ BreaksAt (toks.drop i) 0 (utf8 "invalid statement") := by
  cases h with
  | @finished p h =>
    constructor
    · intro heq
      exact .inl (List.drop_eq_nil_iff.2 (Nat.le_of_eq heq))
    · rintro (hnil | hbreaks)
      · exact Nat.le_antisymm (List.drop_eq_nil_iff.1 hnil) hi
      · obtain ⟨wanted, hstuck, -⟩ := stuck_iff_breaksAt.2 hbreaks
        rw [parse_eq_error_iff.2 ⟨0, wanted, hstuck, rfl⟩] at h
        cases h
  | @stopped e k _ hbreaks _ _ =>
    constructor
    · intro heq
      obtain rfl : k = 0 := by omega
      exact .inr (hbreaks.complaint_of_zero ▸ hbreaks)
    · rintro (hnil | hstart)
      · exact absurd hnil hbreaks.ne_nil
      · rw [hbreaks.index_unique hstart, Nat.add_zero]

end Call

/-! All calls. -/

section Calls

variable (toks : List Token)

theorem beforeCall_eq (n : Nat) :
    (Cursor.ofTokens toks).beforeCall n = Cursor.atIndex toks (callIndex toks n) ∧
      callIndex toks n ≤ toks.length := by
  have hindex : ∀ {i}, i ≤ toks.length → toks.length - (Cursor.atIndex toks i).rest.length = i := by
    intro i hi
    rw [Cursor.length_atIndex]
    omega
  suffices h : ∃ i ≤ toks.length, (Cursor.ofTokens toks).beforeCall n = Cursor.atIndex toks i by
    obtain ⟨i, hi, hcursor⟩ := h
    rw [callIndex, hcursor, hindex hi]
    exact ⟨rfl, hi⟩
  induction n with
  | zero => exact ⟨0, Nat.zero_le _, rfl⟩
  | succ n ih =>
    obtain ⟨i, hi, hcursor⟩ := ih
    obtain ⟨outcome, j, hcall, hprogram⟩ := call_atIndex hi
    refine ⟨j, (hcall.le hi).2, ?_⟩
    rw [Cursor.beforeCall, hcursor, hprogram]

theorem call (n : Nat) : Call toks (callIndex toks n) (answer toks n) (callIndex toks (n + 1)) := by
  obtain ⟨hcursor, hi⟩ := beforeCall_eq toks n
  obtain ⟨outcome, j, hcall, hprogram⟩ := call_atIndex hi
  have hanswer : answer toks n = outcome := by rw [answer, hcursor, hprogram]
  have hnext : callIndex toks (n + 1) = j := by
    have hj := (hcall.le hi).2
    rw [callIndex, Cursor.beforeCall, hcursor, hprogram, Cursor.length_atIndex]
    omega
  rw [hanswer, hnext]
  exact hcall

theorem callIndex_mono {n m : Nat} (h : n ≤ m) : callIndex toks n ≤ callIndex toks m := by
  induction h with
  | refl => exact Nat.le_refl _
  | step _ ih => exact Nat.le_trans ih ((call toks _).le (beforeCall_eq toks _).2).1

theorem answer_of_end {n : Nat} (h : callIndex toks n = toks.length) :
    answer toks n = .ok ⟨[]⟩ := by
  rw [(call toks n).answer_eq, h, List.drop_length]
  exact parse_eq_ok_iff.2 .nil

theorem beforeCall_of_stays {n : Nat} (h : callIndex toks (n + 1) = callIndex toks n) {m : Nat}
    (hm : n ≤ m) : (Cursor.ofTokens toks).beforeCall m = (Cursor.ofTokens toks).beforeCall n := by
  have hstep : (Cursor.ofTokens toks).beforeCall (n + 1) = (Cursor.ofTokens toks).beforeCall n := by
    rw [(beforeCall_eq toks (n + 1)).1, h, ← (beforeCall_eq toks n).1]
  induction hm with
  | refl => rfl
  | step _ ih =>
    rw [Cursor.beforeCall, ih]
    exact hstep

theorem exists_stays : ∃ n ≤ toks.length, callIndex toks (n + 1) = callIndex toks n := by
  by_contra hnone
  -- otherwise the index would have passed the end of the list
  have hgrows : ∀ n ≤ toks.length + 1, n ≤ callIndex toks n := by
    intro n hn
    induction n with
    | zero => exact Nat.zero_le _
    | succ n ih =>
      have hle := callIndex_mono toks (Nat.le_add_right n 1)
      have hne : callIndex toks (n + 1) ≠ callIndex toks n := by
        intro heq
        exact hnone ⟨n, by omega, heq⟩
      have := ih (by omega)
      omega
  have := hgrows (toks.length + 1) (Nat.le_refl _)
  have := (beforeCall_eq toks (toks.length + 1)).2
  omega

end Calls

/-- What is known of the calls on one list of tokens. The index of an error is the place where the
tokens that the call has found go wrong. -/
structure Resumes (toks : List Token) : Prop where
  cursor : ∀ n, (Cursor.ofTokens toks).beforeCall n = Cursor.atIndex toks (callIndex toks n)
  within : ∀ n, callIndex toks n ≤ toks.length
  forward : ∀ n, callIndex toks n ≤ callIndex toks (n + 1)
  answers : ∀ calls, repeated calls (.ofTokens toks) = (List.range calls).map (answer toks)
  fresh : ∀ n, answer toks n = parse (toks.drop (callIndex toks n))
  success : ∀ n p, answer toks n = .ok p →
    callIndex toks (n + 1) = toks.length ∧ ∀ m > n, answer toks m = .ok ⟨[]⟩
  failure : ∀ n e, answer toks n = .error e → toks[callIndex toks (n + 1)]? = e.got ∧
    ∃ k, BreaksAt (toks.drop (callIndex toks n)) k e.complaint ∧
      callIndex toks (n + 1) = callIndex toks n + k
  ending : ∀ n e, answer toks n = .error e → e.got = none →
    callIndex toks (n + 1) = toks.length ∧ answer toks (n + 1) = .ok ⟨[]⟩
  stays : ∀ n, callIndex toks (n + 1) = callIndex toks n ↔ toks.drop (callIndex toks n) = [] ∨
    BreaksAt (toks.drop (callIndex toks n)) 0 (utf8 "invalid statement")
  constant : ∀ n, callIndex toks (n + 1) = callIndex toks n → ∀ m ≥ n,
    callIndex toks m = callIndex toks n ∧ answer toks m = answer toks n
  settles : ∃ n ≤ toks.length, ∀ m ≥ n, answer toks m = answer toks n

theorem calls_parse_successive_suffixes (toks : List Token) : Resumes toks := by
  have hwithin := fun n => (beforeCall_eq toks n).2
  have hstays : ∀ n, callIndex toks (n + 1) = callIndex toks n → ∀ m ≥ n,
      callIndex toks m = callIndex toks n ∧ answer toks m = answer toks n := by
    intro n hn m hm
    have hcursor := beforeCall_of_stays toks hn hm
    exact ⟨by rw [callIndex, hcursor, callIndex], by rw [answer, hcursor, answer]⟩
  refine ⟨fun n => (beforeCall_eq toks n).1, hwithin, fun n => callIndex_mono toks (Nat.le_succ n),
    fun calls => repeated_eq_map calls _, fun n => (call toks n).answer_eq, ?success,
    fun n e he => (he ▸ call toks n).index_of_error, ?ending,
    fun n => (call toks n).eq_start_iff (hwithin n), hstays, ?settles⟩
  case success =>
    intro n p hp
    have hend := (hp ▸ call toks n).index_of_ok
    refine ⟨hend, fun m hm => answer_of_end toks ?_⟩
    have hle : callIndex toks (n + 1) ≤ callIndex toks m := callIndex_mono toks hm
    rw [hend] at hle
    exact Nat.le_antisymm (hwithin m) hle
  case ending =>
    intro n e he hgot
    have hnone := (he ▸ call toks n).index_of_error.1
    rw [hgot, List.getElem?_eq_none_iff] at hnone
    have hend := Nat.le_antisymm (hwithin (n + 1)) hnone
    exact ⟨hend, answer_of_end toks hend⟩
  case settles =>
    obtain ⟨n, hn, heq⟩ := exists_stays toks
    exact ⟨n, hn, fun m hm => (hstays n heq m hm).2⟩

/-- The first call stops at the first semicolon, and the others find no statement there. -/
example : repeated 3 (.ofTokens [⟨.exit, [], 0, 4⟩, ⟨.openParen, [], 4, 5⟩, ⟨.semi, [], 5, 6⟩,
      ⟨.semi, [], 6, 7⟩]) = [.error ⟨5, utf8 "invalid expression", some ⟨.semi, [], 5, 6⟩⟩,
      .error ⟨5, utf8 "invalid statement", some ⟨.semi, [], 5, 6⟩⟩,
      .error ⟨5, utf8 "invalid statement", some ⟨.semi, [], 5, 6⟩⟩] := by
  decide +kernel

end Parser

end LetExit
