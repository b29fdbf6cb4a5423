import ArchiveScript.Machine.Process

/-! # Handling files

The utilities that show, copy, move, make and remove files and directories.
-/

namespace ArchiveScript.Utility

open Job

/-- The flags among the arguments, letter by letter, and the other arguments. -/
def splitFlags : List Octets → List Char × List Octets
  | [] => ([], [])
  | "--" :: args => ([], args)
  | arg :: args =>
    let (flags, others) := splitFlags args
    match arg.toList with
    | '-' :: c :: cs => (c :: cs ++ flags, others)
    | _ => (flags, arg :: others)

def quote (path : Octets) : Octets := "'" ++ path ++ "'"

/-- The last name of a path. -/
def baseName (path : Octets) : Octets :=
  let names := (Path.pieces path).filter (· ≠ [])
  match names.getLast? with
  | some name => String.ofList name
  | none => if path.startsWith "/" then "/" else ""

/-- The path without its last name. -/
def parentName (path : Octets) : Octets :=
  let reversed := (path.toList.reverse.dropWhile (· = '/')).dropWhile (· ≠ '/')
  match reversed.dropWhile (· = '/') with
  | [] => if path.startsWith "/" then "/" else "."
  | rest => String.ofList rest.reverse

def basename (args : List Octets) : Job Nat := do
  match args with
  | [path] =>
    say (baseName path ++ "\n")
    return 0
  | [path, suffix] =>
    let name := (baseName path).toList
    let cut := suffix.toList.isSuffixOf name && suffix.length < name.length
    say (String.ofList (if cut then name.take (name.length - suffix.length) else name) ++ "\n")
    return 0
  | _ => refuse "basename" "missing operand"

def dirname (args : List Octets) : Job Nat := do
  each args fun path => do
    say (parentName path ++ "\n")
    return 0

/-- Shows files one after the other. -/
def cat (args : List Octets) : Job Nat := do
  let files := args.filter fun arg => arg = "-" || !arg.startsWith "-"
  each (if files.isEmpty then ["-"] else files) fun path => do
    match ← readFile path with
    | .ok content =>
      say content
      return 0
    | .error error => refuse "cat" (path ++ ": " ++ error.reason)

/-- Copies the input to the output and to files. -/
def tee (args : List Octets) : Job Nat := do
  let (flags, files) := splitFlags args
  let process ← get
  set { process with input := "" }
  say process.input
  each files fun path => do
    let failed ← onDisk fun disk here => do
      let (location, disk) ← disk.openFile here path
      return disk.alter location fun content =>
        if flags.contains 'a' then content ++ process.input else process.input
    match failed with
    | none => return 0
    | some error => refuse "tee" (path ++ ": " ++ error.reason)

/-- The path that a file gets when it goes to another place: a directory takes it in. -/
def targetOf (process : Process) (source target : Octets) : Octets :=
  if process.disk.isDirectory process.cwd target then Path.join target (baseName source) else target

/-- The items at a location and below it, as they are seen from there. -/
def subtree (disk : Disk) (location : Location) : List (Location × Item) :=
  (disk.items.filter fun entry => location.isPrefixOf entry.1).map fun entry =>
    (entry.1.drop location.length, entry.2)

/-- Puts items below a location. -/
def plant (disk : Disk) (location : Location) (items : List (Location × Item)) : Disk :=
  items.foldl (fun disk entry => disk.put (location ++ entry.1) entry.2) disk

/-- Removes a location and what lies below it. -/
def uproot (disk : Disk) (location : Location) : Disk :=
  ⟨disk.items.filter fun entry => !location.isPrefixOf entry.1⟩

/-- The arguments of a copy: what is copied, and where it goes. -/
def sourcesAndTarget? (args : List Octets) : Option (List Octets × Octets) :=
  match args.getLast? with
  | some target => if args.length < 2 then none else some (args.dropLast, target)
  | none => none

/-- Copies one file, or a directory with what is in it. -/
def copyOne (program : String) (deep : Bool) (target source : Octets) : Job Nat := do
  let process ← get
  match process.disk.find process.cwd source with
  | .error error => refuse program ("cannot stat " ++ quote source ++ ": " ++ error.reason)
  | .ok (.free ..) =>
    refuse program ("cannot stat " ++ quote source ++ ": " ++ SystemError.missing.reason)
  | .ok (.found location item) =>
    let path := targetOf process source target
    if item = .directory then
      if deep then
        match process.disk.find process.cwd path with
        | .ok (.free there _) =>
          set { process with disk := plant process.disk there (subtree process.disk location) }
          return 0
        | .ok (.found there _) =>
          set { process with disk := plant process.disk there (subtree process.disk location) }
          return 0
        | .error error =>
          refuse program ("cannot create directory " ++ quote path ++ ": " ++ error.reason)
      else refuse program ("-r not specified; omitting directory " ++ quote source)
    else
      let content := match item with
        | .file content _ => content
        | _ => ""
      let executable := match item with
        | .file _ executable => executable
        | _ => false
      match process.disk.find process.cwd path with
      | .ok (.found there found) =>
        if there = location then
          refuse program (quote source ++ " and " ++ quote path ++ " are the same file")
        else if found = .directory then
          refuse program ("cannot overwrite directory " ++ quote path ++ " with non-directory")
        else
          set { process with disk := process.disk.alter there fun _ => content }
          return 0
      | .ok (.free there false) =>
        set { process with disk := process.disk.put there (.file content executable) }
        return 0
      | .ok (.free _ true) =>
        refuse program ("cannot create regular file " ++ quote path ++ ": " ++
          SystemError.notDirectory.reason)
      | .error error =>
        refuse program ("cannot create regular file " ++ quote path ++ ": " ++ error.reason)

def missingOperand (program : String) (args : List Octets) : Job Nat := do
  match args with
  | [] =>
    complain (program ++ ": missing file operand\n")
  | arg :: _ =>
    complain (program ++ ": missing destination file operand after " ++ quote arg ++ "\n")
  complain ("Try '" ++ program ++ " --help' for more information.\n")
  return 1

def cp (args : List Octets) : Job Nat := do
  let (flags, args) := splitFlags args
  let deep := flags.contains 'r' || flags.contains 'R' || flags.contains 'a'
  match sourcesAndTarget? args with
  | none => missingOperand "cp" args
  | some (sources, target) =>
    let process ← get
    if sources.length > 1 && !process.disk.isDirectory process.cwd target then
      let error := if process.disk.holds process.cwd target then SystemError.notDirectory
        else .missing
      refuse "cp" ("target " ++ quote target ++ ": " ++ error.reason)
    else each sources (copyOne "cp" deep target)

/-- Moves one file or directory. -/
def moveOne (target source : Octets) : Job Nat := do
  let process ← get
  let path := targetOf process source target
  match process.disk.find process.cwd source with
  | .error error => refuse "mv" ("cannot stat " ++ quote source ++ ": " ++ error.reason)
  | .ok (.free ..) =>
    refuse "mv" ("cannot stat " ++ quote source ++ ": " ++ SystemError.missing.reason)
  | .ok (.found location _) =>
    let move (there : Location) : Job Nat := do
      let items := subtree process.disk location
      set { process with disk := plant (uproot process.disk location) there items }
      return 0
    match process.disk.find process.cwd path with
    | .ok (.found there _) =>
      if there = location then
        refuse "mv" (quote source ++ " and " ++ quote path ++ " are the same file")
      else move there
    | .ok (.free there _) => move there
    | .error error =>
      refuse "mv" ("cannot move " ++ quote source ++ " to " ++ quote path ++ ": " ++ error.reason)

def mv (args : List Octets) : Job Nat := do
  let (_, args) := splitFlags args
  match sourcesAndTarget? args with
  | none => missingOperand "mv" args
  | some (sources, target) => each sources (moveOne target)

/-- Removes one file, or a directory with what is in it. -/
def removeOne (deep forced : Bool) (path : Octets) : Job Nat := do
  let process ← get
  let failed (error : SystemError) :=
    if forced && error = .missing then return 0
    else refuse "rm" ("cannot remove " ++ quote path ++ ": " ++ error.reason)
  match process.disk.find process.cwd path with
  | .error error => failed error
  | .ok (.free ..) => failed .missing
  | .ok (.found location .directory) =>
    if deep then
      set { process with disk := uproot process.disk location }
      return 0
    else failed .isDirectory
  | .ok (.found location _) =>
    set { process with disk := process.disk.erase location }
    return 0

def rm (args : List Octets) : Job Nat := do
  let (flags, args) := splitFlags args
  let forced := flags.contains 'f'
  if args.isEmpty && !forced then
    complain "rm: missing operand\nTry 'rm --help' for more information.\n"
    return 1
  each args (removeOne (flags.contains 'r' || flags.contains 'R') forced)

/-- Makes a directory with the directories that it lies in. -/
def makeAll (disk : Disk) (here : Location) (path : Octets) : Except SystemError Disk :=
  let pieces := (Path.pieces path).map String.ofList
  let ways := (List.range pieces.length).map fun n => "/".intercalate (pieces.take (n + 1))
  (ways.filter (· ≠ "")).foldlM (fun disk way => do
    match ← disk.find here way with
    | .found _ .directory => return disk
    | .found .. => throw .occupied
    | .free location _ => return disk.put location .directory) disk

def mkdir (args : List Octets) : Job Nat := do
  let (flags, args) := splitFlags args
  each args fun path => do
    let failed ← onDisk fun disk here => do
      if flags.contains 'p' then makeAll disk here path
      else
        match ← disk.find here path with
        | .found .. => throw .occupied
        | .free location _ => return disk.put location .directory
    match failed with
    | none => return 0
    | some error =>
      refuse "mkdir" ("cannot create directory " ++ quote path ++ ": " ++ error.reason)

def rmdir (args : List Octets) : Job Nat :=
  each args fun path => do
    let failed ← onDisk fun disk here => do
      match ← disk.find here path with
      | .found location .directory =>
        if (disk.names location).isEmpty then return disk.erase location else throw .notEmpty
      | .found .. => throw .notDirectory
      | .free .. => throw .missing
    match failed with
    | none => return 0
    | some error => refuse "rmdir" ("failed to remove " ++ quote path ++ ": " ++ error.reason)

def touch (args : List Octets) : Job Nat := do
  let (flags, args) := splitFlags args
  each args fun path => do
    let failed ← onDisk fun disk here => do
      match ← disk.find here path with
      | .found .. => return disk
      | .free .. =>
        if flags.contains 'c' then return disk
        else return (← disk.openFile here path).2
    match failed with
    | none => return 0
    | some error => refuse "touch" ("cannot touch " ++ quote path ++ ": " ++ error.reason)

/-- Whether a mode lets a file be run, if the mode says so. -/
def allowsRunning? (mode : Octets) : Option Bool :=
  let digits := mode.toList
  if digits.all Char.isDigit then some (digits.any fun c => (c.toNat - '0'.toNat) % 2 = 1)
  else if digits.contains 'x' then some (digits.contains '+')
  else none

def chmod (args : List Octets) : Job Nat := do
  match args with
  | mode :: files =>
    each files fun path => do
      let failed ← onDisk fun disk here => do
        match ← disk.find here path with
        | .found location (.file content executable) =>
          return disk.put location (.file content ((allowsRunning? mode).getD executable))
        | .found .. => return disk
        | .free .. => throw .missing
      match failed with
      | none => return 0
      | some error => refuse "chmod" ("cannot access " ++ quote path ++ ": " ++ error.reason)
  | [] => refuse "chmod" "missing operand"

/-- The names in a directory; those with a point at the beginning only if asked for. -/
def listing (disk : Disk) (flags : List Char) (location : Location) : List String :=
  let names := disk.names location
  if flags.contains 'a' then "." :: ".." :: names
  else if flags.contains 'A' then names
  else names.filter fun name => !name.startsWith "."

def ls (args : List Octets) : Job Nat := do
  let (flags, args) := splitFlags args
  let paths := if args.isEmpty then ["."] else args.mergeSort fun a b => !decide (b < a)
  let process ← get
  let missing ← each paths fun path => do
    match process.disk.find process.cwd path with
    | .ok (.found ..) => return 0
    | .ok (.free ..) =>
      discard (refuse "ls" ("cannot access " ++ quote path ++ ": " ++ SystemError.missing.reason))
      return 2
    | .error error =>
      discard (refuse "ls" ("cannot access " ++ quote path ++ ": " ++ error.reason))
      return 2
  let files := paths.filter fun path =>
    process.disk.holds process.cwd path && !process.disk.isDirectory process.cwd path
  let directories := paths.filter (process.disk.isDirectory process.cwd)
  for path in files do say (path ++ "\n")
  let mut first := files.isEmpty
  for path in directories do
    if paths.length > 1 then say ((if first then "" else "\n") ++ path ++ ":\n")
    first := false
    match process.disk.find process.cwd path with
    | .ok (.found location _) =>
      for name in listing process.disk flags location do say (name ++ "\n")
    | _ => pure ()
  return missing

/-- Prints the directory that the process works in. -/
def pwd : Job Nat := do
  say ("/" ++ "/".intercalate (← get).cwd ++ "\n")
  return 0

end ArchiveScript.Utility
