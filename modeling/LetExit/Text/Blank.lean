import LetExit.Text.Utf8

/-!
# White space around a text

A text is trimmed by whole characters: a blank is a code point with the
Unicode property White_Space, so a stray byte is never a blank even where
its value is the code point of one.
-/

set_option autoImplicit false

namespace LetExit.Text

def isBlankCode (n : Nat) : Bool :=
  (0x09 ≤ n && n ≤ 0x0D) || n == 0x20 || n == 0x85 || n == 0xA0 || n == 0x1680 ||
  (0x2000 ≤ n && n ≤ 0x200A) || n == 0x2028 || n == 0x2029 || n == 0x202F || n == 0x205F ||
  n == 0x3000

def Piece.isBlank (p : Piece) : Bool := p.code.any isBlankCode

def trim (bs : Bytes) : Bytes :=
  (((pieces bs).dropWhile Piece.isBlank).reverse.dropWhile Piece.isBlank).reverse.flatMap Piece.bytes

end LetExit.Text
