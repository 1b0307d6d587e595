import LetExit.Assembly.Codegen

/-!
# Flags

Arguments are read from left to right. A flag changes the settings from
there on and the last value given wins. Help is shown as soon as it is asked
for, with the settings of that moment as the defaults. An argument that
cannot be understood ends the reading.
-/

set_option autoImplicit false

namespace LetExit.CommandLine

structure Settings where
  output : Bytes
  target : Bytes
  emit : Bytes
  build : Bool
  verbose : Bytes
  deriving DecidableEq, Repr

def Settings.default : Settings where
  output := Compiler.defaultOutput
  target := Target.macos.name
  emit := utf8 "asm"
  build := false
  verbose := []

inductive FlagFault where
  | unknown
  | valueMissing
  | notBool
  deriving DecidableEq, Repr

def FlagFault.message : FlagFault → Bytes
  | .unknown => utf8 "no such flag"
  | .valueMissing => utf8 "flag value is required"
  | .notBool => utf8 "not a bool value"

inductive Flag where
  | output
  | target
  | emit
  | build
  | verbose
  | help
  deriving DecidableEq, Repr

def Flag.ofName? (name : Bytes) : Option Flag :=
  if name = utf8 "output" ∨ name = utf8 "o" then some .output
  else if name = utf8 "target" then some .target
  else if name = utf8 "emit" then some .emit
  else if name = utf8 "build" then some .build
  else if name = utf8 "verbose" ∨ name = utf8 "v" then some .verbose
  else if name = utf8 "help" ∨ name = utf8 "h" then some .help
  else none

def dropDashes : Bytes → Bytes
  | a :: b :: rest =>
    if a = Bytes.dash then (if b = Bytes.dash then rest else b :: rest) else a :: b :: rest
  | [a] => if a = Bytes.dash then [] else [a]
  | [] => []

def endsName (b : UInt8) : Bool := b == Bytes.equals || b == Bytes.blank

def splitFlag (arg : Bytes) : Bytes × Option Bytes :=
  let body := dropDashes arg
  (body.takeWhile (!endsName ·),
    match body.dropWhile (!endsName ·) with
    | [] => none
    | _ :: value => some value)

def bool? (value : Bytes) : Option Bool :=
  let word := Bytes.toLower value
  if word ∈ [[], utf8 "true", utf8 "t", utf8 "yes", utf8 "y", utf8 "1"] then some true
  else if word ∈ [utf8 "false", utf8 "f", utf8 "no", utf8 "n", utf8 "0"] then some false
  else none

def Settings.set (s : Settings) (value : Bytes) : Flag → Settings
  | .output => { s with output := value }
  | .target => { s with target := value }
  | .emit => { s with emit := value }
  | .verbose => { s with verbose := value }
  | .build | .help => s

inductive Reading where
  | run (settings : Settings) (files : List Bytes)
  | help (settings : Settings)
  | refused (arg : Bytes) (fault : FlagFault)
  deriving DecidableEq, Repr

def isFlag (arg : Bytes) : Bool :=
  arg.head? == some Bytes.dash && arg != utf8 "-" && arg != utf8 "--"

/-- Reads the arguments after those that gave these settings and files. -/
def readFrom (s : Settings) (files : List Bytes) : List Bytes → Reading
  | [] => .run s files
  | arg :: rest =>
    if arg = utf8 "--" then .run s (files ++ rest)
    else if isFlag arg then
      match Flag.ofName? (splitFlag arg).1, (splitFlag arg).2 with
      | none, _ => .refused arg .unknown
      | some .help, _ => .help s
      | some .build, value =>
        match bool? (value.getD []) with
        | none => .refused arg .notBool
        | some b => readFrom { s with build := b } files rest
      | some flag, some value => readFrom (s.set value flag) files rest
      | some flag, none =>
        match rest with
        | [] => .refused arg .valueMissing
        | value :: rest => readFrom (s.set value flag) files rest
    else readFrom s (files ++ [arg]) rest

def read (args : List Bytes) : Reading := readFrom .default [] args

def helpLine (names description default : Bytes) : Bytes :=
  utf8 "    " ++ Bytes.padRight 20 names ++ utf8 " - " ++ description ++
    (if default = [] then [] else utf8 " (default " ++ default ++ utf8 ")") ++ [Bytes.newline]

def helpText (s : Settings) : Bytes :=
  utf8 "paskualo [flags_and_args] - paskualo compiles a .pk program into x86-64 NASM assembly\n" ++
  utf8 "\nFlags\n" ++
  helpLine (utf8 "output,o") (utf8 "assembly output file") s.output ++
  helpLine (utf8 "target") (utf8 "target os: macos or linux") s.target ++
  helpLine (utf8 "emit") (utf8 "what to produce: asm, tokens, ast or vars") s.emit ++
  helpLine (utf8 "build") (utf8 "assemble and link the output with nasm and ld")
    (if s.build then utf8 "true" else utf8 "false") ++
  helpLine (utf8 "verbose,v") (utf8 "log topics: dump_tokens, dump_vars, emit, errors") s.verbose ++
  helpLine (utf8 "help,h=[hidden]") (utf8 "print command help end exit") []

end LetExit.CommandLine
