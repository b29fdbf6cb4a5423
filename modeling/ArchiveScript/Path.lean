/-! # Paths

Paths are texts whose components are divided by slashes. They are joined and given another
extension as texts, and compared by their components.
-/

namespace ArchiveScript

abbrev Path := String

namespace Path

/-- The path `part` seen from `base`; a part that begins with a slash stands for itself. -/
def join (base part : Path) : Path :=
  if part.startsWith "/" then part
  else if base.isEmpty || base.endsWith "/" then base ++ part
  else base ++ "/" ++ part

/-- The texts between slashes. -/
def pieces (path : Path) : List (List Char) :=
  path.toList.foldr (fun c pieces =>
    if c = '/' then [] :: pieces
    else match pieces with
      | [] => [[c]]
      | piece :: rest => (c :: piece) :: rest) [[]]

/-- What tells paths apart: repeated slashes, a slash at the end and the component "." do not,
except for a "." at the beginning. -/
def components (path : Path) : List String :=
  let named := fun (piece : List Char) => piece != [] && piece != ['.']
  let names := ((pieces path).filter named).map String.ofList
  if path.startsWith "/" then "/" :: names
  else if (pieces path).head? = some ['.'] then "." :: names
  else names

/-- Whether two paths lead to the same place by the same way. -/
def same (a b : Path) : Bool := components a == components b

/-- The last component, if it is a name, with what stands before and after it. -/
def splitName? (path : List Char) : Option (List Char × List Char × List Char) :=
  -- The reversed path begins with the slashes and the single points at the end.
  let rec skipEnd : List Char → List Char → List Char × List Char
    | passed, '/' :: rest => skipEnd ('/' :: passed) rest
    | passed, ['.'] => ('.' :: passed, [])
    | passed, '.' :: '/' :: rest => skipEnd ('/' :: '.' :: passed) rest
    | passed, rest => (passed, rest)
  let (ending, rest) := skipEnd [] path.reverse
  let name := (rest.takeWhile (· != '/')).reverse
  let before := (rest.dropWhile (· != '/')).reverse
  if name = [] || name = ['.', '.'] then none else some (before, name, ending)

/-- The part of a name before its last point, and the part after it. A point at the beginning
divides nothing. -/
def splitExtension (name : List Char) : List Char × Option (List Char) :=
  let extension := (name.reverse.takeWhile (· != '.')).reverse
  let stem := name.take (name.length - extension.length - 1)
  if extension.length = name.length || stem = [] then (name, none) else (stem, some extension)

/-- The path with another extension at its last component. A path that does not end with a name
stays as it is. The old extension is cut off first; what then does not end with a name stays as it
is, too. -/
def withExtension (path : Path) (extension : String) : Path :=
  let cs := path.toList
  let cut := match splitName? cs with
    | none => cs
    | some (_, name, _) =>
      match splitExtension name with
      | (_, none) => cs
      | (_, some old) => cs.take (cs.length - old.length)
  match splitName? cut with
  | none => String.ofList cut
  | some (before, name, _) =>
    String.ofList (before ++ (splitExtension name).1 ++ '.' :: extension.toList)

end Path

end ArchiveScript
