import Mathlib.Data.List.Nodup
import LetExit.Proofs.SourcePrograms
import LetExit.Proofs.Generation

/-!
# Declared once, read where declared

The rules that the generator checks statement by statement, said of all
statements at once: nothing is foreign, no name is declared twice, and every
name that is read is declared by an earlier statement or by the same one.
-/

set_option autoImplicit false

namespace LetExit

def Expr.Known : Expr → Prop
  | .foreign _ => False
  | _ => True

def Stmt.Known : Stmt → Prop
  | .declare _ _ value => value.Known
  | .exit _ status => status.Known
  | .foreign _ => False

theorem Expr.WellFormed.known {e : Expr} (h : e.WellFormed) : e.Known := by
  cases e with
  | literal span digits => trivial
  | var x => trivial
  | foreign node => exact h

theorem Stmt.WellFormed.known {s : Stmt} (h : s.WellFormed) : s.Known := by
  cases s with
  | declare span x value => exact Expr.WellFormed.known h.2
  | exit span status => exact Expr.WellFormed.known h
  | foreign node => exact h

def Stmt.reads : Stmt → List Name
  | .declare _ _ value => value.names
  | .exit _ status => status.names
  | .foreign _ => []

/-- Some name is read by a statement although neither an earlier one nor that statement itself
declares it. -/
def ReadsUndeclared (ss : List Stmt) : Prop :=
  ∃ before s after, ss = before ++ s :: after ∧ ∃ x ∈ s.reads, x.text ∉ declared (before ++ [s])

theorem Expr.scoped_iff {names : List Bytes} {e : Expr} :
    e.Scoped names ↔ e.Known ∧ ∀ x ∈ e.names, x.text ∈ names := by
  cases e with
  | literal span digits => simp [Expr.Scoped, Expr.Known, Expr.names]
  | var x => simp [Expr.Scoped, Expr.Known, Expr.names]
  | foreign node => simp [Expr.Scoped, Expr.Known]

theorem Stmt.scoped_iff {before : List Stmt} {s : Stmt} (hn : (declared before).Nodup) :
    s.Scoped (declared before) ↔ s.Known ∧ (declared (before ++ [s])).Nodup ∧
      ∀ x ∈ s.reads, x.text ∈ declared (before ++ [s]) := by
  rw [declared_append]
  cases s with
  | declare span x value =>
    have hnew : (declared before ++ [x.text]).Nodup ↔ x.text ∉ declared before := by
      rw [← List.concat_eq_append, List.nodup_concat]
      simp [hn]
    show x.text ∉ declared before ∧ value.Scoped (declared before ++ [x.text]) ↔
      value.Known ∧ (declared before ++ [x.text]).Nodup ∧
        ∀ y ∈ value.names, y.text ∈ declared before ++ [x.text]
    rw [hnew, Expr.scoped_iff, and_left_comm]
  | exit span status =>
    show status.Scoped (declared before) ↔ status.Known ∧ (declared before ++ []).Nodup ∧
      ∀ y ∈ status.names, y.text ∈ declared before ++ []
    rw [List.append_nil, Expr.scoped_iff]
    simp [hn]
  | foreign node => simp [Stmt.Scoped, Stmt.Known]

theorem forall_split_cons {α : Type} {a : α} {as : List α} {P : List α → α → Prop} :
    (∀ pre b post, a :: as = pre ++ b :: post → P pre b) ↔
      P [] a ∧ ∀ pre b post, as = pre ++ b :: post → P (a :: pre) b := by
  constructor
  · intro h
    exact ⟨h [] a as rfl, fun pre b post hsplit => h (a :: pre) b post (by rw [hsplit]; rfl)⟩
  · rintro ⟨hhead, htail⟩ pre b post hsplit
    cases pre with
    | nil => cases hsplit; exact hhead
    | cons y pre => cases hsplit; exact htail pre b post rfl

theorem scoped_iff_of_nodup {before ss : List Stmt} (hn : (declared before).Nodup) :
    Scoped before ss ↔ (∀ s ∈ ss, s.Known) ∧ (declared (before ++ ss)).Nodup ∧
      ∀ pre s post, ss = pre ++ s :: post →
        ∀ x ∈ s.reads, x.text ∈ declared (before ++ pre ++ [s]) := by
  induction ss generalizing before with
  | nil => simp [Scoped, hn]
  | cons s ss ih =>
    have hsplit : before ++ s :: ss = before ++ [s] ++ ss := by simp
    -- the hypothesis of induction needs the names up to this statement to be distinct
    have hprefix : (declared (before ++ [s] ++ ss)).Nodup → (declared (before ++ [s])).Nodup := by
      rw [declared_append (before ++ [s]) ss]
      exact fun h => (List.nodup_append.1 h).1
    rw [Scoped, Stmt.scoped_iff hn, List.forall_mem_cons, forall_split_cons, hsplit]
    constructor
    · rintro ⟨⟨hs, hn', hreads⟩, hss⟩
      obtain ⟨hknown, hnodup, hrest⟩ := (ih hn').1 hss
      exact ⟨⟨hs, hknown⟩, hnodup, by simpa using hreads, by simpa using hrest⟩
    · rintro ⟨⟨hs, hknown⟩, hnodup, hreads, hrest⟩
      have hn' := hprefix hnodup
      exact ⟨⟨hs, hn', by simpa using hreads⟩,
        (ih hn').2 ⟨hknown, hnodup, by simpa using hrest⟩⟩

/-- Statements keep to the rules exactly if none is foreign, no name is declared twice and none
is read undeclared. -/
theorem scoped_iff {ss : List Stmt} :
    Scoped [] ss ↔ (∀ s ∈ ss, s.Known) ∧ (declared ss).Nodup ∧ ¬ReadsUndeclared ss := by
  have hn : (declared []).Nodup := List.nodup_nil
  rw [scoped_iff_of_nodup hn]
  refine and_congr Iff.rfl (and_congr Iff.rfl ⟨?_, ?_⟩)
  · rintro h ⟨before, s, after, hss, x, hx, hnot⟩
    exact hnot (h before s after hss x hx)
  · intro h pre s post hss x hx
    by_contra hnot
    exact h ⟨pre, s, post, hss, x, hx, hnot⟩

theorem Scoped.reads_declared {ss : List Stmt} (h : Scoped [] ss) {s : Stmt} (hs : s ∈ ss) :
    ∀ x ∈ s.reads, x.text ∈ declared ss := by
  intro x hx
  obtain ⟨pre, post, rfl⟩ := List.append_of_mem hs
  by_contra hnot
  apply (scoped_iff.1 h).2.2
  refine ⟨pre, s, post, rfl, x, hx, fun hmem => hnot ?_⟩
  rw [← List.singleton_append, ← List.append_assoc, declared_append]
  exact List.mem_append_left _ hmem

end LetExit
