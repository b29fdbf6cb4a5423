import ArchiveScript.Machine.Process

/-! # Patterns of the shell

A pattern matches texts as a whole. Its signs count only where they are not quoted.
-/

namespace ArchiveScript.Shell

/-- A character of a word, and whether it is quoted. -/
structure Mark where
  char : Char
  quoted : Bool
  deriving DecidableEq, Repr

inductive Glob where
  | exactly (c : Char)
  | anyOne
  | any
  /-- One of the characters in the ranges, or one that is in none of them. -/
  | oneOf (ranges : List (Char × Char)) (negated : Bool)
  deriving DecidableEq, Repr

def isSign (sign : Char) (mark : Mark) : Bool := mark.char = sign && !mark.quoted

/-- The ranges between brackets. -/
def rangesOf : List Char → List (Char × Char)
  | a :: '-' :: b :: rest => (a, b) :: rangesOf rest
  | c :: rest => (c, c) :: rangesOf rest
  | [] => []

/-- The set that an open bracket begins, if there is a closing one. -/
def set? (marks : List Mark) : Option (Glob × List Mark) :=
  let (negated, inner) := match marks with
    | mark :: rest => if isSign '!' mark || isSign '^' mark then (true, rest) else (false, marks)
    | [] => (false, [])
  -- A closing bracket right at the beginning is one of the characters.
  let first := inner.take 1
  let others := (inner.drop 1).takeWhile fun mark => !isSign ']' mark
  match inner.drop (1 + others.length) with
  | _ :: rest => some (.oneOf (rangesOf ((first ++ others).map (·.char))) negated, rest)
  | [] => none

def globsOf : Nat → List Mark → List Glob
  | 0, _ => []
  | _, [] => []
  | fuel + 1, mark :: rest =>
    if isSign '*' mark then .any :: globsOf fuel rest
    else if isSign '?' mark then .anyOne :: globsOf fuel rest
    else if isSign '[' mark then
      match set? rest with
      | some (set, rest) => set :: globsOf fuel rest
      | none => .exactly '[' :: globsOf fuel rest
    else .exactly mark.char :: globsOf fuel rest

def patternOf (marks : List Mark) : List Glob := globsOf marks.length marks

/-- Whether a pattern is more than a text. -/
def isPattern (marks : List Mark) : Bool := (patternOf marks).any fun
  | .exactly _ => false
  | _ => true

def suffixes : List Char → List (List Char)
  | [] => [[]]
  | c :: cs => (c :: cs) :: suffixes cs

/-- Whether a text is matched as a whole. -/
def matchesWhole : List Glob → List Char → Bool
  | [], cs => cs.isEmpty
  | .any :: globs, cs => (suffixes cs).any (matchesWhole globs)
  | .exactly c :: globs, cs =>
    match cs with
    | d :: cs => c = d && matchesWhole globs cs
    | [] => false
  | .anyOne :: globs, cs =>
    match cs with
    | _ :: cs => matchesWhole globs cs
    | [] => false
  | .oneOf ranges negated :: globs, cs =>
    match cs with
    | d :: cs =>
      (ranges.any fun (a, b) => a ≤ d && d ≤ b) != negated && matchesWhole globs cs
    | [] => false

/-- The parts between slashes. -/
def splitSlashes (marks : List Mark) : List (List Mark) :=
  marks.foldr (fun mark parts =>
    if mark.char = '/' then [] :: parts
    else match parts with
      | [] => [[mark]]
      | part :: rest => (mark :: part) :: rest) [[]]

def textOf (marks : List Mark) : Octets := String.ofList (marks.map (·.char))

/-- The names in a directory that a pattern matches. A point at the beginning has to be written;
then the directory itself and the one that it lies in count, too. -/
def matchingNames (process : Process) (path : Octets) (marks : List Mark) : List Octets :=
  match process.disk.find process.cwd (if path = "" then "." else path) with
  | .ok (.found location .directory) =>
    ("." :: ".." :: process.disk.names location).filter fun name =>
      matchesWhole (patternOf marks) name.toList &&
        (!name.startsWith "." || marks.head?.any (·.char = '.'))
  | _ => []

/-- The paths that the parts of a pattern lead to from `paths`. -/
def pathsFrom (process : Process) (paths : List Octets) : List (List Mark) → List Octets
  | [] => paths
  | part :: rest =>
    let step (path : Octets) : List Octets :=
      if isPattern part then (matchingNames process path part).map (path ++ ·)
      else [path ++ textOf part]
    let reached := paths.flatMap step
    if rest.isEmpty then reached else pathsFrom process (reached.map (· ++ "/")) rest

/-- The paths that a pattern stands for; if there are none, it stands for itself. -/
def pathsOf (process : Process) (marks : List Mark) : List Octets :=
  if isPattern marks then
    let reached := (pathsFrom process [""] (splitSlashes marks)).filter
      (process.disk.holds process.cwd)
    if reached.isEmpty then [textOf marks] else reached
  else [textOf marks]

end ArchiveScript.Shell
