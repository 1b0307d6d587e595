import LetExit.CommandLine.Flags
import LetExit.Host

/-!
# Runs of the command

A run reads one source file and shows its tokens, its canonical text or its
variables, or writes its assembly text to a file and may build it. A source
that is refused is reported with the place of the fault. Nothing but the
output file is ever written, and that only for an accepted source.
-/

set_option autoImplicit false

namespace LetExit.CommandLine

structure Outcome where
  status : Nat
  out : Bytes
  err : Bytes
  deriving DecidableEq, Repr

def success (out : Bytes) : Outcome := ⟨0, out, []⟩

structure Style where
  color : Bool
  deriving DecidableEq, Repr

namespace Style

def escape : UInt8 := 27

def paint (style : Style) (code text : Bytes) : Bytes :=
  if style.color then
    escape :: utf8 "[" ++ code ++ utf8 "m" ++ text ++ escape :: utf8 "[0m"
  else text

def bold (style : Style) (text : Bytes) : Bytes := style.paint (utf8 "1") text
def red (style : Style) (text : Bytes) : Bytes := style.paint (utf8 "31;1") text

end Style

def failure (style : Style) (e : Error) : Outcome :=
  ⟨1, [], style.red (utf8 "paskualo: ") ++ e.message ++ [Bytes.newline]⟩

def locationText (name : Bytes) (l : Location) : Bytes :=
  name ++ utf8 ":" ++ Bytes.ofNat l.line ++ utf8 ":" ++ Bytes.ofNat l.column

/-- A refused source: where, which kind of fault, and what it is. -/
def report (style : Style) (name text : Bytes) (e : Error) : Outcome :=
  let place := match e.position? with
    | none => []
    | some pos => style.bold (locationText name (Source.locate text pos.toNat) ++ utf8 ": ")
  ⟨1, [], place ++ style.red (e.category.name ++ utf8 ": ") ++ e.cause.message ++ [Bytes.newline]⟩

def tokenLine (text : Bytes) (t : Token) : Bytes :=
  let l := Source.locate text t.pos.toNat
  Bytes.ofNat l.line ++ utf8 ":" ++ Bytes.ofNat l.column ++ utf8 "\t" ++ t.describe ++
    [Bytes.newline]

def showTokens (style : Style) (name text : Bytes) : Outcome :=
  match Source.tokens text with
  | .error e => report style name text e
  | .ok toks => success (toks.flatMap (tokenLine text))

def showProgram (style : Style) (name text : Bytes) : Outcome :=
  match Source.program text with
  | .error e => report style name text e
  | .ok p =>
    match format (.program p) with
    | .error e => failure style (.wrap (utf8 "format") e)
    | .ok shown => success shown

def varLine (name text : Bytes) (v : Var) : Bytes :=
  Bytes.padRight 16 v.name ++ utf8 " slot " ++ Bytes.padRight 4 (Bytes.ofInt v.slot) ++ utf8 " " ++
    locationText name (Source.locate text v.pos.toNat) ++ [Bytes.newline]

inductive Emit where
  | tokens
  | program
  | vars
  | assembly
  deriving DecidableEq, Repr

def Emit.ofName? (name : Bytes) : Option Emit :=
  if name = utf8 "tokens" then some .tokens
  else if name = utf8 "ast" then some .program
  else if name = utf8 "vars" then some .vars
  else if name = utf8 "asm" then some .assembly
  else none

def usage : Error := .plain (utf8 "usage: paskualo [flags] <file.pk>")

def unsupportedEmit (emit : Bytes) : Error :=
  .plain (utf8 "unsupported emit: " ++ Text.quoted emit)

def unsupportedTarget (target : Bytes) : Error :=
  .plain (utf8 "unsupported target: " ++ Text.quoted target)

def flagError (arg : Bytes) (fault : FlagFault) : Error :=
  .wrap (utf8 "parse flag") (.wrap arg (.plain fault.message))

inductive Job where
  | tokens (file : Bytes)
  | program (file : Bytes)
  | vars (file : Bytes) (compiler : Compiler)
  | assembly (file : Bytes) (compiler : Compiler) (build : Bool)
  deriving DecidableEq, Repr

/-- The job that settings and arguments describe. Only compiling needs a known target. -/
def Job.ofSettings (s : Settings) (files : List Bytes) : Except Error Job :=
  match files with
  | [file] =>
    match Emit.ofName? s.emit with
    | none => .error (unsupportedEmit s.emit)
    | some .tokens => .ok (.tokens file)
    | some .program => .ok (.program file)
    | some emit =>
      match Target.ofName? s.target with
      | none => .error (unsupportedTarget s.target)
      | some target =>
        if emit = .vars then .ok (.vars file ⟨target, s.output⟩)
        else .ok (.assembly file ⟨target, s.output⟩ s.build)
  | _ => .error usage

section

variable {m : Type → Type} [Monad m]

def runTokens (host : Host m) (style : Style) (file : Bytes) : m Outcome := do
  match ← host.readSource file with
  | .error e => return failure style e
  | .ok text => return showTokens style file text

def runProgram (host : Host m) (style : Style) (file : Bytes) : m Outcome := do
  match ← host.readSource file with
  | .error e => return failure style e
  | .ok text => return showProgram style file text

def runVars (host : Host m) (style : Style) (file : Bytes) (c : Compiler) : m Outcome := do
  match ← host.compileFile c file with
  | ⟨none, .error e⟩ => return failure style e
  | ⟨some text, .error e⟩ => return report style file text e
  | ⟨text, .ok obj⟩ => return success (obj.vars.flatMap (varLine file (text.getD [])))

def runBuild (host : Host m) (style : Style) (c : Compiler) : m Outcome := do
  match ← build host.run c.target c.output with
  | .error e => return failure style (.wrap (utf8 "build") e)
  | .ok executable => return success (executable ++ [Bytes.newline])

def runAssembly (host : Host m) (style : Style) (file : Bytes) (c : Compiler) (build : Bool) :
    m Outcome := do
  match ← host.compileFile c file with
  | ⟨none, .error e⟩ => return failure style e
  | ⟨some text, .error e⟩ => return report style file text e
  | ⟨_, .ok obj⟩ =>
    match (← host.store c.output obj.text).error with
    | some e => return failure style (.wrap (utf8 "output") e)
    | none => if build then runBuild host style c else return success []

def Job.run (host : Host m) (style : Style) : Job → m Outcome
  | .tokens file => runTokens host style file
  | .program file => runProgram host style file
  | .vars file c => runVars host style file c
  | .assembly file c build => runAssembly host style file c build

def run (host : Host m) (style : Style) (args : List Bytes) : m Outcome :=
  match read args with
  | .refused arg fault => return failure style (flagError arg fault)
  | .help s => return success (helpText s)
  | .run s files =>
    match Job.ofSettings s files with
    | .error e => return failure style e
    | .ok job => job.run host style

end

end LetExit.CommandLine
