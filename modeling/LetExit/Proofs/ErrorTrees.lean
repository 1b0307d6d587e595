import LetExit.Error

/-!
# Searching errors

A search asks the nodes of an error from the outside in and from left to
right. Moving all the places that an error tells by the same distance moves
what is found, and changes neither the category nor the message.
-/

set_option autoImplicit false

namespace LetExit

/-! Errors about a text that stands `n` bytes further on. -/

def LexicalError.shift (n : Int) (e : LexicalError) : LexicalError := { e with pos := e.pos + n }

def SyntaxError.shift (n : Int) (e : SyntaxError) : SyntaxError :=
  { e with pos := e.pos + n, got := e.got.map (Token.shift n) }

def SemanticError.shift (n : Int) (e : SemanticError) : SemanticError := { e with pos := e.pos + n }

theorem SyntaxError.message_shift (n : Int) (e : SyntaxError) :
    (e.shift n).message = e.message := by
  obtain ⟨pos, complaint, got⟩ := e
  cases got <;> rfl

namespace Error

section Search

variable {α : Type} (answer : Error → Option α)

/-- What a search finds below a node that has no answer. -/
def searchBelow : Error → Option α
  | .wrap _ inner => inner.search answer
  | .command _ inner => inner.search answer
  | .both first second => (first.search answer).or (second.search answer)
  | _ => none

theorem search_eq (e : Error) : search answer e = (answer e).or (searchBelow answer e) := by
  cases h : answer e with
  | some a =>
    unfold search
    rw [h]
    rfl
  | none =>
    unfold search
    rw [h]
    cases e with
    | both first second =>
      dsimp only [searchBelow]
      cases first.search answer <;> rfl
    | _ => rfl

@[simp]
theorem search_lexical (e : LexicalError) : search answer (.lexical e) = answer (.lexical e) :=
  (search_eq answer _).trans Option.or_none

@[simp]
theorem search_grammar (e : SyntaxError) : search answer (.grammar e) = answer (.grammar e) :=
  (search_eq answer _).trans Option.or_none

@[simp]
theorem search_semantic (e : SemanticError) :
    search answer (.semantic e) = answer (.semantic e) :=
  (search_eq answer _).trans Option.or_none

@[simp]
theorem search_plain (text : Bytes) : search answer (.plain text) = answer (.plain text) :=
  (search_eq answer _).trans Option.or_none

@[simp]
theorem search_wrap (context : Bytes) (inner : Error) :
    search answer (.wrap context inner) =
      (answer (.wrap context inner)).or (inner.search answer) :=
  search_eq answer _

@[simp]
theorem search_command (output : Bytes) (inner : Error) :
    search answer (.command output inner) =
      (answer (.command output inner)).or (inner.search answer) :=
  search_eq answer _

@[simp]
theorem search_both (first second : Error) :
    search answer (.both first second) =
      (answer (.both first second)).or ((first.search answer).or (second.search answer)) :=
  search_eq answer _

end Search

def shift (n : Int) : Error → Error
  | .lexical e => .lexical (e.shift n)
  | .grammar e => .grammar (e.shift n)
  | .semantic e => .semantic (e.shift n)
  | .plain text => .plain text
  | .wrap context inner => .wrap context (inner.shift n)
  | .command output inner => .command output (inner.shift n)
  | .both first second => .both (first.shift n) (second.shift n)

def offending? (e : Error) : Option Token := (e.search grammar?).bind SyntaxError.got

/-- No message tells a place. -/
theorem message_shift (n : Int) (e : Error) : (e.shift n).message = e.message := by
  induction e with
  | lexical e => rfl
  | grammar e => exact e.message_shift n
  | semantic e => rfl
  | plain text => rfl
  | wrap context inner ih => simp only [shift, message, ih]
  | command output inner ih => simp only [shift, message, ih]
  | both first second ihfirst ihsecond => simp only [shift, message, ihfirst, ihsecond]

theorem search_shift {α : Type} {n : Int} {answer : Error → Option α} {f : α → α}
    (h : ∀ e, answer (shift n e) = (answer e).map f) (e : Error) :
    (e.shift n).search answer = (e.search answer).map f := by
  have hnode := h e
  induction e with
  | lexical e => simpa [shift] using hnode
  | grammar e => simpa [shift] using hnode
  | semantic e => simpa [shift] using hnode
  | plain text => simpa [shift] using hnode
  | wrap context inner ih =>
    rw [shift, search_wrap, search_wrap, Option.map_or, ih (h inner), ← hnode, shift]
  | command output inner ih =>
    rw [shift, search_command, search_command, Option.map_or, ih (h inner), ← hnode, shift]
  | both first second ihfirst ihsecond =>
    rw [shift, search_both, search_both, Option.map_or, Option.map_or, ihfirst (h first),
      ihsecond (h second), ← hnode, shift]

theorem lexical?_shift (n : Int) (e : Error) :
    lexical? (e.shift n) = (lexical? e).map (LexicalError.shift n) := by
  cases e <;> rfl

theorem grammar?_shift (n : Int) (e : Error) :
    grammar? (e.shift n) = (grammar? e).map (SyntaxError.shift n) := by
  cases e <;> rfl

theorem semantic?_shift (n : Int) (e : Error) :
    semantic? (e.shift n) = (semantic? e).map (SemanticError.shift n) := by
  cases e <;> rfl

theorem ownPosition?_shift (n : Int) (e : Error) :
    ownPosition? (e.shift n) = (ownPosition? e).map (· + n) := by
  cases e <;> rfl

theorem category_shift (n : Int) (e : Error) : (e.shift n).category = e.category := by
  simp only [category, search_shift (lexical?_shift n), search_shift (grammar?_shift n),
    search_shift (semantic?_shift n), Option.isSome_map]

theorem position?_shift (n : Int) (e : Error) : (e.shift n).position? = e.position?.map (· + n) :=
  search_shift (ownPosition?_shift n) e

theorem offending?_shift (n : Int) (e : Error) :
    (e.shift n).offending? = e.offending?.map (Token.shift n) := by
  rw [offending?, offending?, search_shift (grammar?_shift n)]
  cases e.search grammar? <;> rfl

end Error

end LetExit
