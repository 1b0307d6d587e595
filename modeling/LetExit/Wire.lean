import LetExit.Token
import LetExit.Variable

/-!
# Records of tokens and variables

The binary form in which tokens and variables are logged. A value starts
with a tag byte: its upper three bits tell integer, negative integer, string
or map, and its lower five bits hold a small number or say how many bytes of
number follow, most significant first and no more of them than needed. A
string is followed by its bytes and a map by its keys and values.
-/

set_option autoImplicit false

namespace LetExit.Wire

inductive Major where
  | int
  | negative
  | string
  | map
  deriving DecidableEq, Repr

def Major.bits : Major → Nat
  | .int => 0x00
  | .negative => 0x20
  | .string => 0x60
  | .map => 0xA0

def bigEndian : Nat → Nat → Bytes
  | 0, _ => []
  | width + 1, n => bigEndian width (n / 256) ++ [UInt8.ofNat n]

theorem length_bigEndian (width n : Nat) : (bigEndian width n).length = width := by
  induction width generalizing n with
  | zero => rfl
  | succ width ih => simp [bigEndian, ih]

def tag (major : Major) (n : Nat) : Bytes :=
  if n < 24 then [UInt8.ofNat (major.bits + n)]
  else if n < 0x100 then UInt8.ofNat (major.bits + 24) :: bigEndian 1 n
  else if n < 0x10000 then UInt8.ofNat (major.bits + 25) :: bigEndian 2 n
  else if n < 0x100000000 then UInt8.ofNat (major.bits + 26) :: bigEndian 4 n
  else UInt8.ofNat (major.bits + 27) :: bigEndian 8 n

/-- A negative `v` is written as the number `1 - v`. -/
def int (v : Int) : Bytes :=
  if v < 0 then tag .negative (1 - v).toNat else tag .int v.toNat

def string (bs : Bytes) : Bytes := tag .string bs.length ++ bs

/-- A map announces a number of pairs, and its keys and encoded values follow. Nothing here makes
the two agree. -/
def map (count : Nat) (pairs : List (Bytes × Bytes)) : Bytes :=
  tag .map count ++ pairs.flatMap fun pair => string pair.1 ++ pair.2

end LetExit.Wire

namespace LetExit

def Token.pairCount (t : Token) : Nat := if t.text = [] then 2 else 2 + 1

/-- A token is logged without its end, and without its text if that is empty. -/
def Token.wire (t : Token) : Bytes :=
  Wire.map t.pairCount <|
    [(utf8 "kind", Wire.string t.kind.name)] ++
    (if t.text = [] then [] else [(utf8 "text", Wire.string t.text)]) ++
    [(utf8 "pos", Wire.int t.pos)]

def Var.wire (v : Var) : Bytes :=
  Wire.map 3
    [(utf8 "name", Wire.string v.name), (utf8 "slot", Wire.int v.slot),
      (utf8 "pos", Wire.int v.pos)]

end LetExit
