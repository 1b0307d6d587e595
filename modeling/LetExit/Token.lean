import LetExit.Text.Quoted

/-!
# Tokens

A token has a kind, the text of an identifier or integer literal, and the
half-open span of source bytes it was read from. Tokens may also come from
elsewhere than a source text, so kinds and positions are not bound to those
that reading can give.
-/

set_option autoImplicit false

namespace LetExit

/-- The kinds the grammar speaks of, and a code for every other kind. -/
inductive Kind where
  | semi
  | intLit
  | openParen
  | closeParen
  | ident
  | exit
  | letWord
  | eq
  | other (code : Int) (unnamed : code < 0 ∨ 7 < code)
  deriving DecidableEq, Repr

namespace Kind

def ofCode (code : Int) : Kind :=
  if unnamed : code < 0 ∨ 7 < code then .other code unnamed
  else
    match code.toNat with
    | 0 => .semi
    | 1 => .intLit
    | 2 => .openParen
    | 3 => .closeParen
    | 4 => .ident
    | 5 => .exit
    | 6 => .letWord
    | _ => .eq

def code : Kind → Int
  | .semi => 0
  | .intLit => 1
  | .openParen => 2
  | .closeParen => 3
  | .ident => 4
  | .exit => 5
  | .letWord => 6
  | .eq => 7
  | .other code _ => code

def name : Kind → Bytes
  | .semi => utf8 "';'"
  | .intLit => utf8 "int literal"
  | .openParen => utf8 "'('"
  | .closeParen => utf8 "')'"
  | .ident => utf8 "identifier"
  | .exit => utf8 "finu"
  | .letWord => utf8 "jen"
  | .eq => utf8 "'='"
  | .other code _ => utf8 "Kind(" ++ Bytes.ofInt code ++ utf8 ")"

end Kind

structure Token where
  kind : Kind
  text : Bytes
  pos : Int
  stop : Int
  deriving DecidableEq, Repr

namespace Token

def describe (t : Token) : Bytes :=
  if t.text = [] then t.kind.name
  else t.kind.name ++ [Bytes.blank] ++ Text.quoted t.text

def shift (n : Int) (t : Token) : Token :=
  { t with pos := t.pos + n, stop := t.stop + n }

end Token

end LetExit
