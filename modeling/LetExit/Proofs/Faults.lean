import Mathlib.Tactic.SplitIfs
import LetExit.Proofs.ErrorTrees

/-!
# The faults of an error

The faults of an error are its leaves that know their position, in the order
in which a search meets them. They settle what an error is about: the first
of them is its cause and gives its position, and the earliest stage among all
of them is its category. The two need not belong together where errors were
joined, but they do in every chain of contexts.
-/

set_option autoImplicit false

namespace LetExit

/-- A leaf of an error that knows its position. -/
inductive SourceFault where
  | lexical (e : LexicalError)
  | grammar (e : SyntaxError)
  | semantic (e : SemanticError)
  deriving DecidableEq, Repr

namespace SourceFault

def toError : SourceFault → Error
  | .lexical e => .lexical e
  | .grammar e => .grammar e
  | .semantic e => .semantic e

def pos : SourceFault → Int
  | .lexical e => e.pos
  | .grammar e => e.pos
  | .semantic e => e.pos

def stage : SourceFault → Error.Category
  | .lexical _ => .lexical
  | .grammar _ => .grammar
  | .semantic _ => .semantic

theorem ownPosition?_toError (f : SourceFault) : f.toError.ownPosition? = some f.pos := by
  cases f <;> rfl

end SourceFault

namespace Error

def faults : Error → List SourceFault
  | .lexical e => [.lexical e]
  | .grammar e => [.grammar e]
  | .semantic e => [.semantic e]
  | .plain _ => []
  | .wrap _ inner => inner.faults
  | .command _ inner => inner.faults
  | .both first second => first.faults ++ second.faults

theorem faults_toError (f : SourceFault) : f.toError.faults = [f] := by
  cases f <;> rfl

def faultsOf (e : Option Error) : List SourceFault := (e.map faults).getD []

theorem faultsOf_join (members : List (Option Error)) :
    faultsOf (join members) = members.flatMap faultsOf := by
  induction members with
  | nil => rfl
  | cons member rest ih =>
    rw [List.flatMap_cons, ← ih]
    cases member with
    | none => rfl
    | some first =>
      rw [join]
      cases join rest with
      | none => simp [faultsOf]
      | some others => rfl

section Search

variable {α : Type} {answer : Error → Option α}

/-- A question that only faults answer is answered by the first fault that has an answer. -/
theorem search_eq_findSome? (hnode : ∀ e, ownPosition? e = none → answer e = none) (e : Error) :
    e.search answer = e.faults.findSome? fun f => answer f.toError := by
  induction e with
  | lexical e => simp [faults, SourceFault.toError]
  | grammar e => simp [faults, SourceFault.toError]
  | semantic e => simp [faults, SourceFault.toError]
  | plain text => simp [faults, hnode (.plain text) rfl]
  | wrap context inner ih => rw [search_wrap, hnode _ rfl, Option.none_or, ih, faults]
  | command output inner ih => rw [search_command, hnode _ rfl, Option.none_or, ih, faults]
  | both first second ihfirst ihsecond =>
    rw [search_both, hnode _ rfl, Option.none_or, ihfirst, ihsecond, faults,
      List.findSome?_append]

theorem search_eq_head? {ask : SourceFault → α}
    (hnode : ∀ e, ownPosition? e = none → answer e = none)
    (hfault : ∀ f : SourceFault, answer f.toError = some (ask f)) (e : Error) :
    e.search answer = e.faults.head?.map ask := by
  rw [search_eq_findSome? hnode]
  cases e.faults with
  | nil => rfl
  | cons f rest => simp [hfault]

theorem isSome_search_iff {stage : Category}
    (hnode : ∀ e, ownPosition? e = none → answer e = none)
    (hfault : ∀ f : SourceFault, (answer f.toError).isSome ↔ f.stage = stage) (e : Error) :
    (e.search answer).isSome ↔ stage ∈ e.faults.map SourceFault.stage := by
  rw [search_eq_findSome? hnode]
  simp [hfault]

end Search

theorem position?_eq_head? (e : Error) : e.position? = e.faults.head?.map SourceFault.pos :=
  search_eq_head? (fun _ h => h) SourceFault.ownPosition?_toError e

theorem cause_eq_head? (e : Error) : e.cause = (e.faults.head?.map SourceFault.toError).getD e := by
  have hsearch : (e.search fun node => (ownPosition? node).map fun _ => node) =
      e.faults.head?.map SourceFault.toError := by
    apply search_eq_head?
    · intro node h
      rw [h]
      rfl
    · intro f
      rw [SourceFault.ownPosition?_toError]
      rfl
  rw [cause, hsearch]

theorem category_eq_ite (e : Error) :
    e.category =
      if .lexical ∈ e.faults.map SourceFault.stage then .lexical
      else if .grammar ∈ e.faults.map SourceFault.stage then .grammar
      else if .semantic ∈ e.faults.map SourceFault.stage then .semantic
      else .general := by
  have hlexical : (e.search lexical?).isSome ↔ Category.lexical ∈ e.faults.map SourceFault.stage :=
    isSome_search_iff (fun e => by cases e <;> simp [ownPosition?, lexical?])
      (fun f => by cases f <;> simp [SourceFault.toError, SourceFault.stage, lexical?]) e
  have hgrammar : (e.search grammar?).isSome ↔ Category.grammar ∈ e.faults.map SourceFault.stage :=
    isSome_search_iff (fun e => by cases e <;> simp [ownPosition?, grammar?])
      (fun f => by cases f <;> simp [SourceFault.toError, SourceFault.stage, grammar?]) e
  have hsemantic :
      (e.search semantic?).isSome ↔ Category.semantic ∈ e.faults.map SourceFault.stage :=
    isSome_search_iff (fun e => by cases e <;> simp [ownPosition?, semantic?])
      (fun f => by cases f <;> simp [SourceFault.toError, SourceFault.stage, semantic?]) e
  simp only [category, hlexical, hgrammar, hsemantic]

theorem category_eq_of_faults_eq {e e' : Error} (h : e.faults = e'.faults) :
    e.category = e'.category := by
  rw [category_eq_ite, category_eq_ite, h]

theorem position?_eq_of_faults_eq {e e' : Error} (h : e.faults = e'.faults) :
    e.position? = e'.position? := by
  rw [position?_eq_head?, position?_eq_head?, h]

theorem position?_eq_none_iff (e : Error) : e.position? = none ↔ e.faults = [] := by
  rw [position?_eq_head?, Option.map_eq_none_iff, List.head?_eq_none_iff]

theorem category_eq_general_iff (e : Error) : e.category = .general ↔ e.faults = [] := by
  rw [category_eq_ite]
  cases e.faults with
  | nil => simp
  | cons f rest =>
    refine iff_of_false ?_ (by simp)
    intro hgeneral
    split_ifs at hgeneral with hlexical hgrammar hsemantic
    -- no stage is left that could have found the first fault
    cases f with
    | lexical e => exact hlexical List.mem_cons_self
    | grammar e => exact hgrammar List.mem_cons_self
    | semantic e => exact hsemantic List.mem_cons_self

theorem faults_cause (e : Error) : e.cause.faults = e.faults.take 1 := by
  rw [cause_eq_head?]
  cases h : e.faults with
  | nil => exact h
  | cons f rest => exact faults_toError f

theorem cause_cause (e : Error) : e.cause.cause = e.cause := by
  rw [cause_eq_head? e.cause, faults_cause, cause_eq_head? e]
  cases e.faults <;> rfl

def isChain : Error → Bool
  | .wrap _ inner => inner.isChain
  | .command _ inner => inner.isChain
  | .both _ _ => false
  | _ => true

theorem length_faults_of_isChain {e : Error} (h : e.isChain) : e.faults.length ≤ 1 := by
  induction e with
  | lexical e => exact Nat.le_refl 1
  | grammar e => exact Nat.le_refl 1
  | semantic e => exact Nat.le_refl 1
  | plain text => exact Nat.zero_le 1
  | wrap context inner ih => exact ih h
  | command output inner ih => exact ih h
  | both first second => cases h

theorem category_cause_of_isChain {e : Error} (h : e.isChain) : e.cause.category = e.category := by
  apply category_eq_of_faults_eq
  rw [faults_cause, List.take_of_length_le (length_faults_of_isChain h)]

theorem Category.name_eq_error_iff (c : Category) : c.name = utf8 "error" ↔ c = .general := by
  cases c <;> decide

/-- What an error is about, told by its faults alone. -/
theorem faults_settle_error (e : Error) :
    e.position? = e.faults.head?.map SourceFault.pos ∧
    e.cause = (e.faults.head?.map SourceFault.toError).getD e ∧
    e.category.name =
      (if .lexical ∈ e.faults.map SourceFault.stage then utf8 "lexical error"
      else if .grammar ∈ e.faults.map SourceFault.stage then utf8 "syntax error"
      else if .semantic ∈ e.faults.map SourceFault.stage then utf8 "semantic error"
      else utf8 "error") ∧
    (e.position? = none ↔ e.category.name = utf8 "error") ∧
    (∀ context, (wrap context e).category = e.category ∧
      (wrap context e).position? = e.position?) ∧
    (∀ output, (command output e).category = e.category ∧
      (command output e).position? = e.position?) ∧
    e.cause.cause = e.cause ∧
    (e.isChain → e.cause.category = e.category) ∧
    (∀ members, join members = some e → e.faults = members.flatMap faultsOf) := by
  refine ⟨position?_eq_head? e, cause_eq_head? e, ?_, ?_, fun context => ⟨?_, ?_⟩,
    fun output => ⟨?_, ?_⟩, cause_cause e, category_cause_of_isChain, fun members hjoin => ?_⟩
  · rw [category_eq_ite]
    split_ifs <;> rfl
  · rw [position?_eq_none_iff, Category.name_eq_error_iff, category_eq_general_iff]
  · exact category_eq_of_faults_eq rfl
  · exact position?_eq_of_faults_eq rfl
  · exact category_eq_of_faults_eq rfl
  · exact position?_eq_of_faults_eq rfl
  · rw [← faultsOf_join, hjoin]
    rfl

/-- The joined error has the position of its first fault and the category of its second, while a
fault that stands alone in its chain gives both. -/
theorem second_member_gives_category :
    (∃ e, join [some (.wrap (utf8 "parse") (.grammar ⟨7, utf8 "invalid statement", none⟩)), none,
        some (.command (utf8 "x") (.lexical ⟨3, 35⟩))] = some e ∧
      e.faults = [.grammar ⟨7, utf8 "invalid statement", none⟩, .lexical ⟨3, 35⟩] ∧
      e.position? = some 7 ∧ e.category.name = utf8 "lexical error" ∧
      e.cause = .grammar ⟨7, utf8 "invalid statement", none⟩) ∧
    isChain (.wrap [] (.command (utf8 "x") (.semantic ⟨4, utf8 "a", []⟩))) ∧
    (cause (.wrap [] (.command (utf8 "x") (.semantic ⟨4, utf8 "a", []⟩)))).category =
      category (.wrap [] (.command (utf8 "x") (.semantic ⟨4, utf8 "a", []⟩))) := by
  refine ⟨⟨_, rfl, ?_⟩, rfl, ?_⟩
  · obtain ⟨hposition, hcause, hcategory, -, -, -, -, -, hjoin⟩ := faults_settle_error
      (.both (.wrap (utf8 "parse") (.grammar ⟨7, utf8 "invalid statement", none⟩))
        (.command (utf8 "x") (.lexical ⟨3, 35⟩)))
    exact ⟨hjoin [some (.wrap (utf8 "parse") (.grammar ⟨7, utf8 "invalid statement", none⟩)), none,
      some (.command (utf8 "x") (.lexical ⟨3, 35⟩))] rfl, hposition, hcategory, hcause⟩
  · obtain ⟨-, -, -, -, -, -, -, hchain, -⟩ := faults_settle_error
      (.wrap [] (.command (utf8 "x") (.semantic ⟨4, utf8 "a", []⟩)))
    exact hchain rfl

end Error

end LetExit
