import LetExit.Text.Utf8
import LetExit.Text.Printable

/-!
# Quoted texts

Texts are shown in messages between quotes. Printable characters stand for
themselves, the quote in use and the backslash carry a backslash, and every
other code point or stray byte is written as an escape, so the quoted form
is printable whatever the text holds.
-/

set_option autoImplicit false

namespace LetExit.Text

def backslash : UInt8 := 92

def controlLetter? : Nat → Option String
  | 7 => some "a"
  | 8 => some "b"
  | 9 => some "t"
  | 10 => some "n"
  | 11 => some "v"
  | 12 => some "f"
  | 13 => some "r"
  | _ => none

def escapeCode (quote : UInt8) (n : Nat) : Bytes :=
  if n = quote.toNat ∨ n = backslash.toNat then [backslash, UInt8.ofNat n]
  else if isPrintable n then encode n
  else match controlLetter? n with
    | some letter => backslash :: utf8 letter
    | none =>
      if n < 0x20 ∨ n = 0x7F then utf8 "\\x" ++ Bytes.hex 2 n
      else if n < 0x10000 then utf8 "\\u" ++ Bytes.hex 4 n
      else utf8 "\\U" ++ Bytes.hex 8 n

def Piece.escape (quote : UInt8) (p : Piece) : Bytes :=
  match p.code with
  | some n => escapeCode quote n
  | none => p.bytes.flatMap fun b => utf8 "\\x" ++ Bytes.hex 2 b.toNat

def doubleQuote : UInt8 := 34
def singleQuote : UInt8 := 39

def quoted (bs : Bytes) : Bytes :=
  doubleQuote :: (pieces bs).flatMap (Piece.escape doubleQuote) ++ [doubleQuote]

def quotedCode (n : Nat) : Bytes :=
  singleQuote :: escapeCode singleQuote n ++ [singleQuote]

end LetExit.Text
