import ArchiveScript.Machine.Utility.Files

/-! # Handling lines

The utilities that cut, count and sort lines.
-/

namespace ArchiveScript.Utility

open Job

/-- The lines with the characters that end them; the last one may have none. -/
def linesOf (content : Octets) : List (List Char) :=
  content.toList.foldr (fun c lines =>
    if c = '\n' then [c] :: lines
    else match lines with
      | [] => [[c]]
      | line :: rest => (c :: line) :: rest) []

def ofLines (lines : List (List Char)) : Octets := String.ofList lines.flatten

/-- How much of a file is shown. -/
structure Amount where
  count : Nat := 10
  /-- Bytes are counted instead of lines. -/
  inBytes : Bool := false
  /-- The count is that of the first line shown. -/
  fromStart : Bool := false

/-- Reads an amount and the files after it. -/
def readAmount (amount : Amount) : List Octets → Amount × List Octets
  | [] => (amount, [])
  | arg :: args =>
    let number (amount : Amount) (cs : List Char) : Amount :=
      match cs with
      | '+' :: digits => { amount with count := digitsOf digits, fromStart := true }
      | '-' :: digits => { amount with count := digitsOf digits }
      | digits => { amount with count := digitsOf digits }
    match arg.toList, args with
    | ['-', 'n'], value :: args => readAmount (number amount value.toList) args
    | ['-', 'c'], value :: args =>
      readAmount (number { amount with inBytes := true } value.toList) args
    | '-' :: 'n' :: digits, args => readAmount (number amount digits) args
    | '-' :: 'c' :: digits, args =>
      readAmount (number { amount with inBytes := true } digits) args
    | '-' :: c :: digits, args =>
      if c.isDigit then readAmount (number amount (c :: digits)) args
      else
        let (amount, files) := readAmount amount args
        (amount, arg :: files)
    | _, args =>
      let (amount, files) := readAmount amount args
      (amount, arg :: files)
where
  digitsOf (cs : List Char) : Nat := cs.foldl (fun n c => 10 * n + (c.toNat - '0'.toNat)) 0

/-- Shows a part of each file, with headings if there are several. -/
def showPart (program : String) (part : Octets → Octets) (files : List Octets) : Job Nat := do
  each (if files.isEmpty then ["-"] else files) fun path => do
    match ← readFile path with
    | .ok content =>
      if files.length > 1 then
        say ((if files.head? = some path then "" else "\n") ++ "==> " ++ path ++ " <==\n")
      say (part content)
      return 0
    | .error .isDirectory =>
      refuse program ("error reading " ++ quote path ++ ": " ++ SystemError.isDirectory.reason)
    | .error error =>
      refuse program ("cannot open " ++ quote path ++ " for reading: " ++ error.reason)

def head (args : List Octets) : Job Nat :=
  let (amount, files) := readAmount {} args
  showPart "head" (fun content =>
    if amount.inBytes then String.ofList (content.toList.take amount.count)
    else ofLines ((linesOf content).take amount.count)) files

def tail (args : List Octets) : Job Nat :=
  let (amount, files) := readAmount {} args
  let last (α : Type) (all : List α) : List α :=
    if amount.fromStart then all.drop (amount.count - 1) else all.drop (all.length - amount.count)
  showPart "tail" (fun content =>
    if amount.inBytes then String.ofList (last Char content.toList)
    else ofLines (last (List Char) (linesOf content))) files

/-- Each line with an end, so that lines can change places. -/
def ended (line : List Char) : List Char :=
  if line.getLast? = some '\n' then line else line ++ ['\n']

/-- The number that a line begins with. -/
def leadingNumber (line : List Char) : Int :=
  match line.dropWhile (· = ' ') with
  | '-' :: digits => -(value digits : Int)
  | digits => value digits
where
  value (cs : List Char) : Nat :=
    (cs.takeWhile Char.isDigit).foldl (fun n c => 10 * n + (c.toNat - '0'.toNat)) 0

def sort (args : List Octets) : Job Nat := do
  let (flags, files) := splitFlags args
  let mut lines : List (List Char) := []
  for path in (if files.isEmpty then ["-"] else files) do
    match ← readFile path with
    | .ok content => lines := lines ++ (linesOf content).map ended
    | .error error =>
      complain ("sort: cannot read: " ++ path ++ ": " ++ error.reason ++ "\n")
      return 2
  let atMost (a b : List Char) : Bool := !decide (String.ofList b < String.ofList a)
  let inOrder (a b : List Char) : Bool :=
    if flags.contains 'n' && leadingNumber a ≠ leadingNumber b then
      leadingNumber a < leadingNumber b
    else atMost a b
  let sorted := lines.mergeSort fun a b => if flags.contains 'r' then inOrder b a else inOrder a b
  say (ofLines (if flags.contains 'u' then sorted.eraseDups else sorted))
  return 0

/-- The number of words in a text. -/
def countWords (content : Octets) : Nat :=
  let isGap (c : Char) := c = ' ' || ('\t' ≤ c && c ≤ '\r')
  (content.toList.foldl (fun (count, inWord) c =>
    if isGap c then (count, false) else (if inWord then count else count + 1, true))
    (0, false)).1

def wc (args : List Octets) : Job Nat := do
  let (flags, files) := splitFlags args
  let wanted := if flags.isEmpty then ['l', 'w', 'c'] else ['l', 'w', 'c'].filter flags.contains
  let countsOf (content : Octets) := wanted.map fun flag =>
    if flag = 'l' then (content.toList.filter (· = '\n')).length
    else if flag = 'w' then countWords content
    else content.length
  let mut width := 0
  for path in files do
    match ← readFile path with
    | .ok content => width := max width (toString content.length).length
    | .error _ => pure ()
  if wanted.length = 1 && files.length ≤ 1 then width := 0
  else if files.isEmpty then width := 7
  let line (counts : List Nat) (name : Octets) :=
    let cell (n : Nat) :=
      String.ofList (List.replicate (width - (toString n).length) ' ') ++ toString n
    " ".intercalate (counts.map cell) ++ (if name = "" then "" else " " ++ name) ++ "\n"
  each (if files.isEmpty then ["-"] else files) fun path => do
    match ← readFile path with
    | .ok content =>
      say (line (countsOf content) (if files.isEmpty then "" else path))
      return 0
    | .error error => refuse "wc" (path ++ ": " ++ error.reason)

end ArchiveScript.Utility
