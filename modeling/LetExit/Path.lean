import LetExit.Bytes

/-!
# Paths

Paths are byte strings with elements between slashes. Everything here is
lexical: no file is looked at. The shortest path with the same meaning is
found by leaving out empty and `.` elements and letting `..` take away the
element before it.
-/

set_option autoImplicit false

namespace LetExit.Path

def here : Bytes := utf8 "."
def parent : Bytes := utf8 ".."

def isRooted (path : Bytes) : Bool := path.head? == some Bytes.slash

/-- One more element after the elements kept so far, which are in reverse order. Above
the root there is nothing; above a relative start there is. -/
def push (rooted : Bool) (kept : List Bytes) (element : Bytes) : List Bytes :=
  if element = [] ∨ element = here then kept
  else if element = parent then
    match kept with
    | [] => if rooted then [] else [parent]
    | last :: before => if last = parent then parent :: kept else before
  else element :: kept

def elements (path : Bytes) : List Bytes :=
  ((Bytes.split Bytes.slash path).foldl (push (isRooted path)) []).reverse

def clean (path : Bytes) : Bytes :=
  let body := Bytes.join [Bytes.slash] (elements path)
  if isRooted path then Bytes.slash :: body
  else if body = [] then here
  else body

def lastElement (path : Bytes) : Bytes :=
  (path.reverse.takeWhile (· != Bytes.slash)).reverse

def beforeLast (path : Bytes) : Bytes :=
  (path.reverse.dropWhile (· != Bytes.slash)).reverse

def extension (path : Bytes) : Bytes :=
  let name := lastElement path
  if Bytes.dot ∈ name then
    Bytes.dot :: (name.reverse.takeWhile (· != Bytes.dot)).reverse
  else []

def stem (path : Bytes) : Bytes := path.take (path.length - (extension path).length)

def base (path : Bytes) : Bytes :=
  if path = [] then here
  else
    let trimmed := (path.reverse.dropWhile (· == Bytes.slash)).reverse
    if trimmed = [] then [Bytes.slash] else lastElement trimmed

def directory (path : Bytes) : Bytes := clean (beforeLast path)

def join (parts : List Bytes) : Bytes :=
  match parts.filter (· ≠ []) with
  | [] => []
  | parts => clean (Bytes.join [Bytes.slash] parts)

end LetExit.Path
