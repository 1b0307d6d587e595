import LetExit.Bytes

/-!
# Characters in a byte string

A byte string is cut from the left into pieces. A piece is one well-formed
UTF-8 character, or a single stray byte where no such character starts. The
pieces always give the byte string back, whatever it holds.
-/

set_option autoImplicit false

namespace LetExit.Text

/-- A run of bytes with the code point it encodes, or none for a stray byte. -/
structure Piece where
  bytes : Bytes
  code : Option Nat
  deriving DecidableEq, Repr

def isContinuation (b : UInt8) : Bool := 0x80 ≤ b && b < 0xC0

def tailBits (b : UInt8) : Nat := b.toNat % 64

/-- The code point that starts a byte string and the number of its bytes. Overlong
forms, surrogates and values above 0x10FFFF start no character. -/
def firstCode? : Bytes → Option (Nat × Nat)
  | [] => none
  | a :: rest =>
    if a < 0x80 then some (a.toNat, 1)
    else match rest with
      | [] => none
      | b :: rest =>
        if !isContinuation b then none
        else if 0xC2 ≤ a ∧ a < 0xE0 then some (a.toNat % 32 * 64 + tailBits b, 2)
        else match rest with
          | [] => none
          | c :: rest =>
            if !isContinuation c then none
            else if 0xE0 ≤ a ∧ a < 0xF0 then
              let n := (a.toNat % 16 * 64 + tailBits b) * 64 + tailBits c
              if n < 0x800 ∨ (0xD800 ≤ n ∧ n < 0xE000) then none else some (n, 3)
            else match rest with
              | [] => none
              | d :: _ =>
                if !isContinuation d then none
                else if 0xF0 ≤ a ∧ a < 0xF5 then
                  let n := ((a.toNat % 8 * 64 + tailBits b) * 64 + tailBits c) * 64 + tailBits d
                  if n < 0x10000 ∨ 0x10FFFF < n then none else some (n, 4)
                else none

def firstPiece (b : UInt8) (rest : Bytes) : Piece :=
  match firstCode? (b :: rest) with
  | some (n, width) => ⟨b :: rest.take (width - 1), some n⟩
  | none => ⟨[b], none⟩

def afterPiece (b : UInt8) (rest : Bytes) : Bytes :=
  rest.drop ((firstPiece b rest).bytes.length - 1)

theorem length_afterPiece_le (b : UInt8) (rest : Bytes) :
    (afterPiece b rest).length ≤ rest.length := by
  simp [afterPiece]

def pieces : Bytes → List Piece
  | [] => []
  | b :: rest => firstPiece b rest :: pieces (afterPiece b rest)
termination_by bs => bs.length
decreasing_by
  have := length_afterPiece_le b rest
  simp only [List.length_cons]
  omega

def encode (code : Nat) : Bytes := String.utf8EncodeChar (Char.ofNat code)

end LetExit.Text
