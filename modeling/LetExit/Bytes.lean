/-!
# Byte strings

Source text, assembly text, paths and messages are byte strings: nothing in
the language asks that its input be valid in any character encoding, and
every position counts bytes. This module gives the carrier and the few
renderings the rest of the library writes with.
-/

set_option autoImplicit false

namespace LetExit

abbrev Bytes := List UInt8

def utf8 (s : String) : Bytes := s.toList.flatMap String.utf8EncodeChar

namespace Bytes

def newline : UInt8 := 10
def blank : UInt8 := 32
def slash : UInt8 := 47
def dot : UInt8 := 46
def dash : UInt8 := 45
def equals : UInt8 := 61

def ofNat (n : Nat) : Bytes :=
  if n < 10 then [UInt8.ofNat (48 + n)]
  else ofNat (n / 10) ++ [UInt8.ofNat (48 + n % 10)]

def ofInt : Int → Bytes
  | .ofNat n => ofNat n
  | .negSucc n => dash :: ofNat (n + 1)

def hexDigit (n : Nat) : UInt8 :=
  if n < 10 then UInt8.ofNat (48 + n) else UInt8.ofNat (87 + n)

def hex : Nat → Nat → Bytes
  | 0, _ => []
  | width + 1, n => hex width (n / 16) ++ [hexDigit (n % 16)]

def join (separator : Bytes) : List Bytes → Bytes
  | [] => []
  | [field] => field
  | field :: rest => field ++ separator ++ join separator rest

def split (separator : UInt8) : Bytes → List Bytes
  | [] => [[]]
  | b :: rest =>
    match split separator rest with
    | [] => [[b]]
    | field :: fields => if b = separator then [] :: field :: fields else (b :: field) :: fields

theorem split_ne_nil (separator : UInt8) (bs : Bytes) : split separator bs ≠ [] := by
  cases bs with
  | nil => simp [split]
  | cons b rest =>
    rw [split]
    split
    · simp
    · split <;> simp

theorem join_split (separator : UInt8) (bs : Bytes) :
    join [separator] (split separator bs) = bs := by
  induction bs with
  | nil => rfl
  | cons b rest ih =>
    rw [split]
    cases h : split separator rest with
    | nil => exact absurd h (split_ne_nil separator rest)
    | cons field fields =>
      rw [h] at ih
      by_cases hb : b = separator
      · simp [hb, join, ih]
      · cases fields with
        | nil => simpa [hb, join] using ih
        | cons second fields => simpa [hb, join] using ih

theorem split_append (separator : UInt8) (bs rest : Bytes) :
    split separator (bs ++ separator :: rest) = split separator bs ++ split separator rest := by
  induction bs with
  | nil =>
    rw [List.nil_append, split]
    cases h : split separator rest with
    | nil => exact absurd h (split_ne_nil separator rest)
    | cons field fields => simp [split, h]
  | cons b bs ih =>
    rw [List.cons_append, split, split, ih]
    cases h : split separator bs with
    | nil => exact absurd h (split_ne_nil separator bs)
    | cons field fields => by_cases hb : b = separator <;> simp [hb]

theorem split_of_not_mem {separator : UInt8} {bs : Bytes} (h : separator ∉ bs) :
    split separator bs = [bs] := by
  induction bs with
  | nil => rfl
  | cons b bs ih =>
    have hb : b ≠ separator := fun e => h (by simp [e])
    rw [split, ih fun hmem => h (by simp [hmem])]
    simp [hb]

def padRight (width : Nat) (bs : Bytes) : Bytes :=
  bs ++ List.replicate (width - bs.length) blank

/-- Only the 26 letters of the Latin alphabet have a lower case here. -/
def toLower (bs : Bytes) : Bytes :=
  bs.map fun b => if 65 ≤ b ∧ b ≤ 90 then b + 32 else b

end Bytes

end LetExit
