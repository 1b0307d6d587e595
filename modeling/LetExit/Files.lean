import LetExit.Error
import LetExit.Path

/-!
# Files

A model of a file system: directories and regular files under absolute
places, and a working directory from which relative names start. Names are
followed element by element, so a missing element or a file in the middle of
a name is an error even if a later `..` would leave it again.
-/

set_option autoImplicit false

namespace LetExit

abbrev Place := List Bytes

inductive FileEntry where
  | file (data : Bytes)
  | directory
  deriving DecidableEq, Repr

structure Files where
  entries : List (Place × FileEntry)
  working : Place
  deriving DecidableEq, Repr

inductive FileFault where
  | missing
  | notDirectory
  | isDirectory
  | nameTooLong
  | invalidName
  | denied
  | other (text : Bytes)
  deriving DecidableEq, Repr

def FileFault.message : FileFault → Bytes
  | .missing => utf8 "no such file or directory"
  | .notDirectory => utf8 "not a directory"
  | .isDirectory => utf8 "is a directory"
  | .nameTooLong => utf8 "file name too long"
  | .invalidName => utf8 "invalid argument"
  | .denied => utf8 "permission denied"
  | .other text => text

inductive FileAction where
  | opening
  | reading
  deriving DecidableEq, Repr

structure FileError where
  action : FileAction
  name : Bytes
  fault : FileFault
  deriving DecidableEq, Repr

def FileError.toError (e : FileError) : Error :=
  let action := match e.action with
    | .opening => utf8 "open "
    | .reading => utf8 "read "
  .plain (action ++ e.name ++ utf8 ": " ++ e.fault.message)

namespace Files

def empty (working : Place) : Files :=
  ⟨(List.range working.length).map fun i => (working.take (i + 1), .directory), working⟩

def at? (fs : Files) (place : Place) : Option FileEntry :=
  if place = [] then some .directory
  else (fs.entries.find? (·.1 == place)).map (·.2)

def put (fs : Files) (place : Place) (entry : FileEntry) : Files :=
  { fs with entries := (place, entry) :: fs.entries.filter (·.1 != place) }

theorem at?_put_self (fs : Files) (place : Place) (entry : FileEntry) (h : place ≠ []) :
    (fs.put place entry).at? place = some entry := by
  simp [at?, put, h]

theorem at?_put_of_ne (fs : Files) {place other : Place} (entry : FileEntry) (h : other ≠ place) :
    (fs.put place entry).at? other = fs.at? other := by
  unfold at? put
  split
  · rfl
  · simp only [List.find?_cons]
    have hne : (place == other) = false := by simpa using fun e : place = other => h e.symm
    rw [hne]
    congr 1
    induction fs.entries with
    | nil => rfl
    | cons e rest ih =>
      by_cases he : e.1 = place
      · have : (e.1 == other) = false := by simpa [he] using hne
        simp [he, ih, hne]
      · by_cases ho : e.1 = other
        · subst ho
          simp [he]
        · simp [he, ho, ih]

def maxElement : Nat := 255
def maxName : Nat := 4095

/-- Follows the elements of a name from a place. Each step asks for a directory to stand
in; what the last step leads to need not exist. -/
def walk (fs : Files) (place : Place) : List Bytes → Except FileFault Place
  | [] => .ok place
  | element :: rest =>
    match fs.at? place with
    | none => .error .missing
    | some (.file _) => .error .notDirectory
    | some .directory =>
      if element = [] ∨ element = Path.here then walk fs place rest
      else if element = Path.parent then walk fs place.dropLast rest
      else if maxElement < element.length then .error .nameTooLong
      else walk fs (place ++ [element]) rest

def nameFault? (name : Bytes) : Option FileFault :=
  if 0 ∈ name then some .invalidName
  else if name = [] then some .missing
  else if maxName < name.length then some .nameTooLong
  else none

def start (fs : Files) (name : Bytes) : Place := if Path.isRooted name then [] else fs.working

def resolve (fs : Files) (name : Bytes) : Except FileFault Place :=
  match nameFault? name with
  | some fault => .error fault
  | none => fs.walk (fs.start name) (Bytes.split Bytes.slash name)

def read (fs : Files) (name : Bytes) : Except FileError Bytes :=
  match fs.resolve name with
  | .error fault => .error ⟨.opening, name, fault⟩
  | .ok place =>
    match fs.at? place with
    | none => .error ⟨.opening, name, .missing⟩
    | some .directory => .error ⟨.reading, name, .isDirectory⟩
    | some (.file data) => .ok data

def reversedElements (name : Bytes) : List Bytes :=
  (Bytes.split Bytes.slash name).reverse.dropWhile (· == [])

def walkAbove (fs : Files) (name : Bytes) (above : List Bytes) : Except FileFault Place :=
  fs.walk (fs.start name) (above.reverse ++ [[]])

/-- The place of the file that writing to a name would create or replace. A name that ends
in a slash asks for a directory, which writing does not make. -/
def creatable (fs : Files) (name : Bytes) : Except FileFault Place :=
  match nameFault? name with
  | some fault => .error fault
  | none =>
    match reversedElements name with
    | [] => .error .isDirectory
    | last :: above =>
      match fs.walkAbove name above with
      | .error fault => .error fault
      | .ok place =>
        if last = Path.here ∨ last = Path.parent ∨ name.getLast? = some Bytes.slash then
          .error .isDirectory
        else if maxElement < last.length then .error .nameTooLong
        else .ok (place ++ [last])

def write (fs : Files) (name data : Bytes) : Except FileError Files :=
  match fs.creatable name with
  | .error fault => .error ⟨.opening, name, fault⟩
  | .ok place =>
    match fs.at? place with
    | some .directory => .error ⟨.opening, name, .isDirectory⟩
    | _ => .ok (fs.put place (.file data))

def makeWay (fs : Files) (place : Place) : List Bytes → Files
  | [] => fs
  | element :: rest =>
    if element = [] ∨ element = Path.here then makeWay fs place rest
    else if element = Path.parent then makeWay fs place.dropLast rest
    else if maxElement < element.length ∨ 0 ∈ element then fs
    else
      let next := place ++ [element]
      match fs.at? next with
      | some .directory => makeWay fs next rest
      | some (.file _) => fs
      | none => makeWay (fs.put next .directory) next rest

def makeDirectory (fs : Files) (name : Bytes) : Files :=
  fs.makeWay (fs.start name) (Bytes.split Bytes.slash name)

def prune (fs : Files) (place : Place) (itself : Bool) : Files :=
  { fs with entries := fs.entries.filter fun e =>
      !place.isPrefixOf e.1 || (!itself && e.1 == place) }

/-- Removes a file, or a directory with all it holds. Nothing happens if there is none. The
directory that a dot or two at the end of a name stand for is emptied and stays, but a
name that ends in a single dot is refused. -/
def remove (fs : Files) (name : Bytes) : Files :=
  match nameFault? name, reversedElements name with
  | none, last :: above =>
    match fs.walkAbove name above with
    | .error _ => fs
    | .ok place =>
      if last = Path.here then
        if name.getLast? = some Bytes.dot then fs else fs.prune place false
      else if last = Path.parent then fs.prune place.dropLast false
      else fs.prune (place ++ [last]) true
  | _, _ => fs

def add (fs : Files) (name data : Bytes) : Files :=
  let way := fs.makeDirectory (Path.directory name)
  match way.write name data with
  | .error _ => way
  | .ok fs' => fs'

def changesSince (before after : Files) : List (Bytes × Bytes) :=
  after.entries.filterMap fun (place, entry) =>
    match entry with
    | .directory => none
    | .file data =>
      if after.working.isPrefixOf place ∧ before.at? place ≠ some (.file data) then
        some (Bytes.join [Bytes.slash] (place.drop after.working.length), data)
      else none

end Files

end LetExit
