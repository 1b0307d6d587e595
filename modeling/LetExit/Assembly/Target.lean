import LetExit.Path
import LetExit.Assembly.Instr

/-!
# Targets

A target is an operating system on x86-64: the entry symbol and exit call
that programs need there, and the commands that make an executable of the
assembly text. The products of a build are put next to the assembly file.
-/

set_option autoImplicit false

namespace LetExit

structure Target where
  name : Bytes
  entry : Bytes
  exitNumber : Bytes
  objectFormat : Bytes
  linkFlags : List Bytes
  deriving DecidableEq, Repr

structure Products where
  object : Bytes
  executable : Bytes
  deriving DecidableEq, Repr

/-- Products are named after the assembly file without its extension. A file that is
nothing but an extension gives `out`, and the executable of a file without extension
gets one, so that it does not take the place of the file. -/
def Products.ofPath (path : Bytes) : Products :=
  let p := Path.clean path
  let ext := Path.extension p
  if Path.base p = ext then
    let stem := Path.join [Path.directory p, utf8 "out"]
    ⟨stem ++ utf8 ".o", stem⟩
  else if ext = [] then ⟨p ++ utf8 ".o", p ++ utf8 ".out"⟩
  else ⟨Path.stem p ++ utf8 ".o", Path.stem p⟩

namespace Target

def macos : Target where
  name := utf8 "macos"
  entry := utf8 "_main"
  exitNumber := utf8 "0x2000001"
  objectFormat := utf8 "macho64"
  linkFlags :=
    [utf8 "-demangle", utf8 "-dynamic", utf8 "-macos_version_min", utf8 "11.0",
      utf8 "-L/usr/local/lib", utf8 "-syslibroot",
      utf8 "/Library/Developer/CommandLineTools/SDKs/MacOSX.sdk", utf8 "-lSystem", utf8 "-no_pie"]

def linux : Target where
  name := utf8 "linux"
  entry := utf8 "_start"
  exitNumber := utf8 "60"
  objectFormat := utf8 "elf64"
  linkFlags := []

def all : List Target := [linux, macos]

def ofName? (name : Bytes) : Option Target := all.find? (·.name == name)

def header (t : Target) : Bytes :=
  utf8 "; NASM output\nbits 64\nsection .text\n" ++ Instr.indent ++ utf8 "global " ++ t.entry ++
    utf8 "\n" ++ t.entry ++ utf8 ":\n"

def assemble (t : Target) (path : Bytes) : List Bytes :=
  [utf8 "nasm", utf8 "-f", t.objectFormat, path]

def link (t : Target) (path : Bytes) : List Bytes :=
  [utf8 "ld", (Products.ofPath path).object, utf8 "-o", (Products.ofPath path).executable] ++
    t.linkFlags

def commands (t : Target) (path : Bytes) : List (List Bytes) := [t.assemble path, t.link path]

def trailer (t : Target) (path : Bytes) : Bytes :=
  Bytes.newline :: (t.commands path).flatMap fun command =>
    utf8 "; " ++ Bytes.join [Bytes.blank] command ++ [Bytes.newline]

end Target

end LetExit
