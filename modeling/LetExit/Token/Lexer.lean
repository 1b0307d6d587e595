import LetExit.Token

/-!
# Reading tokens

White space separates tokens and is otherwise ignored. A token is the
longest run of bytes that can form one: a letter followed by letters and
digits is a word, digits are an integer literal, and each punctuation byte
is a token of its own. The first byte that is neither ends the reading.
-/

set_option autoImplicit false

namespace LetExit

structure LexicalError where
  pos : Int
  byte : UInt8
  deriving DecidableEq, Repr

/-- The byte is shown as the code point of the same value. -/
def LexicalError.message (e : LexicalError) : Bytes :=
  utf8 "unexpected character " ++ Text.quotedCode e.byte.toNat

namespace Lexer

def isSpace (b : UInt8) : Bool := b == 32 || (9 ≤ b && b ≤ 13)
def isLetter (b : UInt8) : Bool := (97 ≤ b && b ≤ 122) || (65 ≤ b && b ≤ 90)
def isDigit (b : UInt8) : Bool := 48 ≤ b && b ≤ 57
def isWordByte (b : UInt8) : Bool := isLetter b || isDigit b

def punctuation? (b : UInt8) : Option Kind :=
  if b = 40 then some .openParen
  else if b = 41 then some .closeParen
  else if b = 59 then some .semi
  else if b = 61 then some .eq
  else none

structure Lexeme where
  kind : Kind
  spelling : Bytes
  deriving DecidableEq, Repr

def wordKind (word : Bytes) : Kind :=
  if word = utf8 "finu" then .exit
  else if word = utf8 "jen" then .letWord
  else .ident

def Lexeme.text (l : Lexeme) : Bytes :=
  match l.kind with
  | .ident | .intLit => l.spelling
  | _ => []

/-- The longest lexeme that starts with `b` when `rest` follows it. -/
def lexeme? (b : UInt8) (rest : Bytes) : Option Lexeme :=
  if isLetter b then
    let word := b :: rest.takeWhile isWordByte
    some ⟨wordKind word, word⟩
  else if isDigit b then some ⟨.intLit, b :: rest.takeWhile isDigit⟩
  else (punctuation? b).map fun kind => ⟨kind, [b]⟩

def tokensFrom (pos : Nat) : Bytes → Except LexicalError (List Token)
  | [] => .ok []
  | b :: rest =>
    if isSpace b then tokensFrom (pos + 1) rest
    else match lexeme? b rest with
      | none => .error ⟨pos, b⟩
      | some l =>
        let size := l.spelling.length
        match tokensFrom (pos + size) (rest.drop (size - 1)) with
        | .error e => .error e
        | .ok tokens => .ok (⟨l.kind, l.text, pos, (pos + size : Nat)⟩ :: tokens)
termination_by bs => bs.length

theorem drop_length_takeWhile (p : UInt8 → Bool) (bs : Bytes) :
    bs.drop (bs.takeWhile p).length = bs.dropWhile p := by
  induction bs with
  | nil => rfl
  | cons b rest ih => by_cases h : p b <;> simp [h, ih]

theorem lexeme?_spelling {b : UInt8} {rest : Bytes} {l : Lexeme} (h : lexeme? b rest = some l) :
    l.spelling ++ rest.drop (l.spelling.length - 1) = b :: rest := by
  unfold lexeme? at h
  split at h
  · cases h
    simp [drop_length_takeWhile, List.takeWhile_append_dropWhile]
  · split at h
    · cases h
      simp [drop_length_takeWhile, List.takeWhile_append_dropWhile]
    · obtain ⟨kind, _, rfl⟩ := Option.map_eq_some_iff.1 h
      simp

end Lexer

def lex (text : Bytes) : Except LexicalError (List Token) := Lexer.tokensFrom 0 text

end LetExit
