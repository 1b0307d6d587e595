import LetExit.Host

/-!
# A modelled system

Files in memory and a table of commands that can be run. A command writes
its two outputs and ends with an exit status or by a signal. It changes no
file.
-/

set_option autoImplicit false

namespace LetExit

structure Tool where
  out : Bytes
  err : Bytes
  status : Nat
  signal : Nat
  deriving DecidableEq, Repr

def signalName : Nat → Bytes
  | 1 => utf8 "hangup"
  | 2 => utf8 "interrupt"
  | 3 => utf8 "quit"
  | 4 => utf8 "illegal instruction"
  | 5 => utf8 "trace/breakpoint trap"
  | 6 => utf8 "aborted"
  | 7 => utf8 "bus error"
  | 8 => utf8 "floating point exception"
  | 9 => utf8 "killed"
  | 10 => utf8 "user defined signal 1"
  | 11 => utf8 "segmentation fault"
  | 12 => utf8 "user defined signal 2"
  | 13 => utf8 "broken pipe"
  | 14 => utf8 "alarm clock"
  | 15 => utf8 "terminated"
  | 16 => utf8 "stack fault"
  | 17 => utf8 "child exited"
  | 18 => utf8 "continued"
  | 19 => utf8 "stopped (signal)"
  | 20 => utf8 "stopped"
  | 21 => utf8 "stopped (tty input)"
  | 22 => utf8 "stopped (tty output)"
  | 23 => utf8 "urgent I/O condition"
  | 24 => utf8 "CPU time limit exceeded"
  | 25 => utf8 "file size limit exceeded"
  | 26 => utf8 "virtual timer expired"
  | 27 => utf8 "profiling timer expired"
  | 28 => utf8 "window changed"
  | 29 => utf8 "I/O possible"
  | 30 => utf8 "power failure"
  | 31 => utf8 "bad system call"
  | n => utf8 "signal " ++ Bytes.ofNat n

namespace Tool

/-- Why the command counts as failed, if it does. Exit statuses have eight bits. -/
def failure? (t : Tool) : Option Bytes :=
  if t.signal ≠ 0 then some (utf8 "signal: " ++ signalName t.signal)
  else if t.status % 256 ≠ 0 then some (utf8 "exit status " ++ Bytes.ofNat (t.status % 256))
  else none

def outcome (t : Tool) : Except Error Unit :=
  match t.failure? with
  | none => .ok ()
  | some reason => .error (.command (t.out ++ t.err) (.plain reason))

end Tool

abbrev Tools := List (Bytes × Tool)

inductive LaunchFault where
  | noCommand
  | notFound (name : Bytes)
  | notCommand (name : Bytes) (fault : FileFault)
  | unusable (name : Bytes) (fault : FileFault)
  | canceled
  deriving DecidableEq, Repr

def LaunchFault.message : LaunchFault → Bytes
  | .noCommand => utf8 "exec: no command"
  | .notFound name =>
    utf8 "exec: " ++ Text.quoted name ++ utf8 ": executable file not found in $PATH"
  | .notCommand name fault => utf8 "exec: " ++ Text.quoted name ++ utf8 ": " ++ fault.message
  | .unusable name fault => utf8 "fork/exec " ++ name ++ utf8 ": " ++ fault.message
  | .canceled => utf8 "context canceled"

def LaunchFault.toError (f : LaunchFault) : Error := .command [] (.plain f.message)

structure World where
  files : Files
  tools : Tools

namespace World

def executeFault (w : World) (name : Bytes) : FileFault :=
  match w.files.resolve name with
  | .error fault => fault
  | .ok place =>
    match w.files.at? place with
    | none => .missing
    | some _ => .denied

/-- The command of a name that is looked up. The one such name with a slash is the root,
which is a directory. -/
def lookUp (w : World) (name : Bytes) : Except LaunchFault Tool :=
  if Bytes.slash ∈ name then .error (.notCommand name .isDirectory)
  else match w.tools.lookup name with
    | none => .error (.notFound name)
    | some tool => .ok tool

def hasZeroByte (command : List Bytes) : Bool := command.any (0 ∈ ·)

/-- Runs a command line. A name that is its own last element is looked up, and any other is
the path of a file. A run that was cancelled beforehand never starts, but looking up its
name may fail first. -/
def run (w : World) (canceled : Bool) (command : List Bytes) : Except Error Unit :=
  let name := command.headD []
  if name = [] then .error LaunchFault.noCommand.toError
  else if Path.base name = name then
    match w.lookUp name with
    | .error fault => .error fault.toError
    | .ok tool =>
      if canceled then .error LaunchFault.canceled.toError
      else if hasZeroByte command then .error (LaunchFault.unusable name .invalidName).toError
      else tool.outcome
  else if canceled then .error LaunchFault.canceled.toError
  else if hasZeroByte command then .error (LaunchFault.unusable name .invalidName).toError
  else .error (LaunchFault.unusable name (w.executeFault name)).toError

def host : Host (StateM World) where
  read name := do return (← get).files.read name
  write name data := do
    let w ← get
    match w.files.write name data with
    | .error e => return .error e
    | .ok files =>
      set { w with files := files }
      return .ok ()
  run command := do return (← get).run false command

theorem host_read (w : World) (name : Bytes) :
    (host.read name).run w = (w.files.read name, w) := rfl

theorem host_run (w : World) (command : List Bytes) :
    (host.run command).run w = (w.run false command, w) := rfl

theorem host_write_ok {w : World} {name data : Bytes} {files : Files}
    (h : w.files.write name data = .ok files) :
    (host.write name data).run w = (.ok (), { w with files := files }) := by
  simp only [host, bind_pure_comp, StateT.run_bind, StateT.run_get, pure_bind, h]
  rfl

theorem host_write_error {w : World} {name data : Bytes} {e : FileError}
    (h : w.files.write name data = .error e) :
    (host.write name data).run w = (.error e, w) := by
  simp only [host, bind_pure_comp, StateT.run_bind, StateT.run_get, pure_bind, h]
  rfl

end World

end LetExit
