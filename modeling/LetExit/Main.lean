import LetExit.CommandLine.Run

/-!
# The command

Joins the command line to the files of the machine it runs on. External
commands are not started from here, so a build reports its first command as
not found.
-/

set_option autoImplicit false

namespace LetExit.Disk

def toBytes (data : ByteArray) : Bytes := data.data.toList

def ofBytes (bs : Bytes) : ByteArray := ⟨bs.toArray⟩

def isNumber (code number : UInt32) : Bool := code == number || code == 0 - number

def faultOf : IO.Error → FileFault
  | .noFileOrDirectory _ _ _ => .missing
  | .inappropriateType _ code _ => if isNumber code 20 then .notDirectory else .isDirectory
  | .invalidArgument _ code _ => if isNumber code 36 then .nameTooLong else .invalidName
  | .permissionDenied _ _ _ => .denied
  | e => .other (utf8 e.toString)

/-- A directory can be opened and fails when it is read. -/
def read (name : Bytes) : IO (Except FileError Bytes) := do
  match String.fromUTF8? (ofBytes name) with
  | none => return .error ⟨.opening, name, .missing⟩
  | some path =>
    try
      return .ok (toBytes (← IO.FS.readBinFile path))
    catch e =>
      let fault := faultOf e
      return .error ⟨if fault = .isDirectory then .reading else .opening, name, fault⟩

def write (name data : Bytes) : IO (Except FileError Unit) := do
  match String.fromUTF8? (ofBytes name) with
  | none => return .error ⟨.opening, name, .invalidName⟩
  | some path =>
    try
      IO.FS.writeBinFile path (ofBytes data)
      return .ok ()
    catch e => return .error ⟨.opening, name, faultOf e⟩

def host : Host IO where
  read := read
  write := write
  run command := return .error (.plain
    (utf8 "exec: " ++ Text.quoted (command.headD []) ++
      utf8 ": executable file not found in $PATH"))

end LetExit.Disk

def main (args : List String) : IO UInt32 := do
  let stdout ← IO.getStdout
  let stderr ← IO.getStderr
  let style : LetExit.CommandLine.Style := ⟨← stdout.isTty⟩
  let outcome ← LetExit.CommandLine.run LetExit.Disk.host style (args.map LetExit.utf8)
  stdout.write (LetExit.Disk.ofBytes outcome.out)
  stderr.write (LetExit.Disk.ofBytes outcome.err)
  return outcome.status.toUInt32
