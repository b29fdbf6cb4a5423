import ArchiveScript.Machine.Octets
import ArchiveScript.Machine.SystemError
import ArchiveScript.Path

/-! # Disks

A disk holds files and directories. A path leads from a directory to one of them, or to a place
where there is none yet.
-/

namespace ArchiveScript

/-- The names on the way from the root. -/
abbrev Location := List String

inductive Item where
  | file (content : Octets) (executable : Bool)
  | directory
  /-- What is written to it is lost, and there is nothing to read. -/
  | null
  /-- A program that the machine brings along. -/
  | program (name : String)
  deriving DecidableEq, Repr

structure Disk where
  items : List (Location × Item)
  deriving DecidableEq, Repr

/-- Where a path leads. -/
inductive Place where
  | found (location : Location) (item : Item)
  /-- Nothing is there, in a directory that is. Only a directory can be made there if the path ends
  with a slash. -/
  | free (location : Location) (slash : Bool)
  deriving DecidableEq, Repr

namespace Disk

/-- The item at a location. The root is always a directory. -/
def get? (disk : Disk) (location : Location) : Option Item :=
  if location = [] then some .directory else (disk.items.find? (·.1 = location)).map (·.2)

def erase (disk : Disk) (location : Location) : Disk :=
  ⟨disk.items.filter (·.1 ≠ location)⟩

def put (disk : Disk) (location : Location) (item : Item) : Disk :=
  ⟨(disk.erase location).items ++ [(location, item)]⟩

/-- What lies directly in a directory, by name. -/
def names (disk : Disk) (location : Location) : List String :=
  let inside := disk.items.filter fun entry => entry.1 ≠ [] ∧ entry.1.dropLast = location
  (inside.map fun entry => entry.1.getLastD "").mergeSort fun a b => !decide (b < a)

/-- The longest name that an item can have. -/
def nameLimit : Nat := 255

/-- Follows the pieces of a path. -/
def walk (disk : Disk) (here : Location) : List String → Except SystemError Place
  | [] =>
    match disk.get? here with
    | some item => .ok (.found here item)
    | none => .error .missing
  | name :: rest =>
    match disk.get? here with
    | none => .error .missing
    | some .directory =>
      if name = "" ∨ name = "." then walk disk here rest
      else if name = ".." then walk disk here.dropLast rest
      else if name.length > nameLimit then .error .nameTooLong
      else
        let there := here ++ [name]
        if (disk.get? there).isNone ∧ rest.all (· = "") then .ok (.free there (!rest.isEmpty))
        else walk disk there rest
    | some _ => .error .notDirectory

/-- Follows a path from a directory. The empty path leads nowhere. -/
def find (disk : Disk) (here : Location) (path : Octets) : Except SystemError Place :=
  if path = "" then .error .missing
  else
    let start := if path.startsWith "/" then [] else here
    disk.walk start ((Path.pieces path).map String.ofList)

def isDirectory (disk : Disk) (here : Location) (path : Octets) : Bool :=
  match disk.find here path with
  | .ok (.found _ .directory) => true
  | _ => false

def holds (disk : Disk) (here : Location) (path : Octets) : Bool :=
  match disk.find here path with
  | .ok (.found ..) => true
  | _ => false

def read (disk : Disk) (here : Location) (path : Octets) : Except SystemError Octets := do
  match ← disk.find here path with
  | .found _ (.file content _) => return content
  | .found _ .directory => throw .isDirectory
  | .found _ .null => return ""
  | .found _ (.program _) => return ""
  | .free .. => throw .missing

/-- Where a file for writing lies, which is made if there is none. -/
def openFile (disk : Disk) (here : Location) (path : Octets) :
    Except SystemError (Location × Disk) := do
  match ← disk.find here path with
  | .found _ .directory => throw .isDirectory
  | .found location _ => return (location, disk)
  | .free _ true => throw .isDirectory
  | .free location false => return (location, disk.put location (.file "" false))

/-- Changes the content of a file. Other items have no content. -/
def alter (disk : Disk) (location : Location) (f : Octets → Octets) : Disk :=
  match disk.get? location with
  | some (.file content executable) => disk.put location (.file (f content) executable)
  | _ => disk

/-- Replaces the content of a file, which is made if there is none. -/
def write (disk : Disk) (here : Location) (path content : Octets) : Except SystemError Disk := do
  let (location, disk) ← disk.openFile here path
  return disk.alter location fun _ => content

/-- Removes a file. -/
def unlink (disk : Disk) (here : Location) (path : Octets) : Except SystemError Disk := do
  match ← disk.find here path with
  | .found _ .directory => throw .isDirectory
  | .found location _ => return disk.erase location
  | .free .. => throw .missing

/-- Makes the directories of a list that are not there. -/
def addMissing (disk : Disk) (locations : List Location) : Disk :=
  (locations.filter fun location => (disk.get? location).isNone).foldl
    (fun disk location => disk.put location .directory) disk

/-- Makes a directory with the directories that it lies in. -/
def addDirectory (disk : Disk) (location : Location) : Disk :=
  disk.addMissing ((List.range (location.length + 1)).map (location.take ·))

/-- Makes a file with the directories that it lies in. -/
def addFile (disk : Disk) (location : Location) (content : Octets) (executable : Bool) : Disk :=
  (disk.addDirectory location.dropLast).put location (.file content executable)

end Disk

end ArchiveScript
