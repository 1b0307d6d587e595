import LetExit.Files
import LetExit.Source

/-!
# The host of a compiler run

What a run needs from outside: reading a file, writing a file and running a
command. Everything here is written against these three alone, so it runs on
a real system as well as on a modelled one.
-/

set_option autoImplicit false

namespace LetExit

structure Host (m : Type → Type) where
  read : Bytes → m (Except FileError Bytes)
  write : Bytes → Bytes → m (Except FileError Unit)
  run : List Bytes → m (Except Error Unit)

structure CompiledFile where
  source : Option Bytes
  result : Except Error Object

/-- What storing a file returns. The flag is there also if something went wrong. -/
structure StoreReport where
  written : Bool
  error : Option Error
  deriving DecidableEq, Repr

namespace Host

variable {m : Type → Type} [Monad m]

def readSource (host : Host m) (name : Bytes) : m (Except Error Bytes) := do
  match ← host.read name with
  | .error e => return .error (.wrap (utf8 "read file") e.toError)
  | .ok text => return .ok text

def compileFile (host : Host m) (c : Compiler) (name : Bytes) : m CompiledFile := do
  match ← host.readSource name with
  | .error e => return ⟨none, .error e⟩
  | .ok text => return ⟨some text, Source.compile c text⟩

def overwrite (host : Host m) (name data : Bytes) : m StoreReport := do
  match ← host.write name data with
  | .error e => return ⟨false, some (.wrap (utf8 "write") e.toError)⟩
  | .ok () => return ⟨true, none⟩

/-- Writes a file unless it has the wanted contents already, and says whether it was
written. Of the reasons why the old contents cannot be read, only that there is no such
file lets the writing go on. -/
def store (host : Host m) (name data : Bytes) : m StoreReport := do
  match ← host.read name with
  | .ok old => if old = data then return ⟨false, none⟩ else host.overwrite name data
  | .error e =>
    if e.fault = .missing then host.overwrite name data
    else return ⟨false, some (.wrap (utf8 "read old") e.toError)⟩

end Host

def runCommands {m : Type → Type} [Monad m] (run : List Bytes → m (Except Error Unit)) :
    List (List Bytes) → m (Except Error Unit)
  | [] => return .ok ()
  | command :: rest => do
    match ← run command with
    | .error e => return .error (.wrap (command.headD []) e)
    | .ok () => runCommands run rest

def build {m : Type → Type} [Monad m] (run : List Bytes → m (Except Error Unit))
    (t : Target) (path : Bytes) : m (Except Error Bytes) := do
  match ← runCommands run (t.commands path) with
  | .error e => return .error e
  | .ok () => return .ok (Products.ofPath path).executable

end LetExit
