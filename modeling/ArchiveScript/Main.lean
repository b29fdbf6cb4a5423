import ArchiveScript.CommandLine.Invocation

/-! # The program

The outer layer: the files below the current directory go into a disk, the call is carried out on
it, and what it has changed goes back. Scripts and tools are run by the machine of this library,
so nothing else is started. Files that begin with the sign of a script can be run.
-/

namespace ArchiveScript.Main

def octetsOf (bytes : ByteArray) : Octets := Octets.ofBytes bytes.toList

def bytesOf (octets : Octets) : ByteArray := ⟨octets.bytes.toArray⟩

/-- The names on the way to a path. -/
def locationOf (path : String) : Location :=
  ((Path.pieces (Octets.ofText path)).map String.ofList).filter (· ≠ "")

/-- Takes the files below the current directory onto a disk. -/
def snapshot : IO (Disk × Location) := do
  let here ← IO.currentDir
  let cwd := locationOf here.toString
  let mut disk := Disk.standard.addDirectory cwd
  for path in ← here.walkDir do
    let location := locationOf path.toString
    if ← path.isDir then disk := disk.addDirectory location
    else
      let content := octetsOf (← IO.FS.readBinFile path)
      disk := disk.addFile location content (content.startsWith "#!")
  return (disk, cwd)

/-- The directory that a path from the current directory leads into. -/
def directoryOf (path : Octets) : Octets :=
  "/".intercalate ("." :: ((Path.pieces path).map String.ofList).dropLast)

/-- Puts what has changed back below the current directory. -/
def writeBack (disk before : Disk) (cwd : Location) : IO Unit := do
  for (path, content) in disk.written before cwd do
    IO.FS.createDirAll (directoryOf path).text
    IO.FS.writeBinFile path.text (bytesOf content)
  for path in disk.removed before cwd do
    IO.FS.removeFile path.text

end ArchiveScript.Main

open ArchiveScript in
def main (args : List String) : IO UInt32 := do
  let (disk, cwd) ← Main.snapshot
  let finish := Invocation.run "dbspec" args disk cwd
  Main.writeBack finish.disk disk cwd
  (← IO.getStdout).putStr finish.stdout
  (← IO.getStderr).putStr finish.stderr
  return finish.status.code.toUInt32
