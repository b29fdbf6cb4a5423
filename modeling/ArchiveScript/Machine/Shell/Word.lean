import ArchiveScript.Machine.Octets

/-! # Words of the shell

A word is made up of texts, parameters and commands whose output it takes. What is quoted is
neither split nor taken as a pattern.
-/

namespace ArchiveScript.Shell

/-- What is done with the value of a parameter. With `orEmpty`, an empty value counts as none. -/
inductive Modifier where
  | none
  /-- The length of the value. -/
  | length
  /-- Another word if there is no value. -/
  | otherwise (orEmpty : Bool) (word : Octets)
  /-- The same, and the parameter is set to it. -/
  | assign (orEmpty : Bool) (word : Octets)
  /-- Another word if there is a value. -/
  | instead (orEmpty : Bool) (word : Octets)
  /-- The script ends if there is no value. -/
  | demand (orEmpty : Bool) (word : Octets)
  /-- The value without what a pattern matches at its start. -/
  | cutStart (longest : Bool) (pattern : Octets)
  /-- The value without what a pattern matches at its end. -/
  | cutEnd (longest : Bool) (pattern : Octets)
  deriving DecidableEq, Repr

inductive Piece where
  | text (text : Octets) (quoted : Bool)
  | parameter (name : Octets) (modifier : Modifier) (quoted : Bool)
  /-- The output of a script. -/
  | command (script : Octets) (quoted : Bool)
  deriving DecidableEq, Repr

abbrev Word := List Piece

/-- The characters that end a word. -/
def isBoundary (c : Char) : Bool :=
  [' ', '\t', '\n', ';', '&', '|', '<', '>', '(', ')'].contains c

def isNameStart (c : Char) : Bool := c.isAlpha || c == '_'

def isNamePart (c : Char) : Bool := c.isAlphanum || c == '_'

/-- The parameters that are named by a sign. -/
def isSpecial (c : Char) : Bool := ['@', '*', '#', '?', '$', '!', '-'].contains c

/-- Finds the bracket that closes an open one, passing over quotes and brackets of the same kind. -/
def closing (opening close : Char) : Nat → Nat → List Char → Option (List Char × List Char)
  | 0, _, _ => none
  | _, _, [] => none
  | fuel + 1, depth, c :: rest =>
    let go (taken : List Char) (depth : Nat) (rest : List Char) :=
      (closing opening close fuel depth rest).map fun (inner, rest) => (taken ++ inner, rest)
    if c = '\\' then go (c :: rest.take 1) depth (rest.drop 1)
    else if c = '\'' then
      let text := rest.takeWhile (· ≠ '\'')
      go (c :: text ++ ['\'']) depth (rest.drop (text.length + 1))
    else if c = close then
      match depth with
      | 0 => some ([], rest)
      | depth + 1 => go [c] depth rest
    else if c = opening then go [c] (depth + 1) rest
    else go [c] depth rest

/-- The modifier that is written after a name. -/
def modifierOf? (cs : List Char) : Option Modifier :=
  match cs with
  | [] => some .none
  | ':' :: '-' :: word => some (.otherwise true (String.ofList word))
  | '-' :: word => some (.otherwise false (String.ofList word))
  | ':' :: '=' :: word => some (.assign true (String.ofList word))
  | '=' :: word => some (.assign false (String.ofList word))
  | ':' :: '+' :: word => some (.instead true (String.ofList word))
  | '+' :: word => some (.instead false (String.ofList word))
  | ':' :: '?' :: word => some (.demand true (String.ofList word))
  | '?' :: word => some (.demand false (String.ofList word))
  | '#' :: '#' :: word => some (.cutStart true (String.ofList word))
  | '#' :: word => some (.cutStart false (String.ofList word))
  | '%' :: '%' :: word => some (.cutEnd true (String.ofList word))
  | '%' :: word => some (.cutEnd false (String.ofList word))
  | _ => none

/-- The parameter between braces. -/
def bracedOf? (quoted : Bool) (cs : List Char) : Option Piece :=
  let name (cs : List Char) : List Char :=
    match cs with
    | c :: _ =>
      if isNameStart c then cs.takeWhile isNamePart
      else if c.isDigit then cs.takeWhile Char.isDigit
      else if isSpecial c then [c]
      else []
    | [] => []
  match cs with
  | '#' :: c :: rest =>
    let measured := name (c :: rest)
    if measured.length = rest.length + 1 then
      some (.parameter (String.ofList measured) .length quoted)
    else (modifierOf? (c :: rest)).map (.parameter "#" · quoted)
  | cs =>
    let name := name cs
    if name.isEmpty then none
    else (modifierOf? (cs.drop name.length)).map (.parameter (String.ofList name) · quoted)

/-- What comes after a dollar sign. A sign that begins nothing stands for itself. -/
def dollar? (quoted : Bool) (cs : List Char) : Option (Piece × List Char) :=
  match cs with
  | '(' :: rest => do
    let (inner, rest) ← closing '(' ')' rest.length 0 rest
    return (.command (String.ofList inner) quoted, rest)
  | '{' :: rest => do
    let (inner, rest) ← closing '{' '}' rest.length 0 rest
    return (← bracedOf? quoted inner, rest)
  | c :: rest =>
    if isNameStart c then
      let name := cs.takeWhile isNamePart
      some (.parameter (String.ofList name) .none quoted, cs.drop name.length)
    else if c.isDigit || isSpecial c then some (.parameter (String.ofList [c]) .none quoted, rest)
    else some (.text "$" quoted, cs)
  | [] => some (.text "$" quoted, [])

def backquote : Char := Char.ofNat 96

/-- A command between backquotes, in which backslashes can stand before backquotes, dollar signs
and backslashes. -/
def backquoted? : List Char → Option (List Char × List Char)
  | [] => none
  | '\\' :: c :: rest =>
    (backquoted? rest).map fun (inner, rest) =>
      (if c = '$' ∨ c = backquote ∨ c = '\\' then c :: inner else '\\' :: c :: inner, rest)
  | c :: rest =>
    if c = backquote then some ([], rest)
    else (backquoted? rest).map fun (inner, rest) => (c :: inner, rest)

/-- What stands between double quotes. -/
def doubleQuoted? : Nat → List Char → Option (Word × List Char)
  | 0, _ => none
  | _, [] => none
  | _, '"' :: rest => some ([], rest)
  | fuel + 1, '\\' :: c :: rest => do
    let (word, rest) ← doubleQuoted? fuel rest
    let text := if c = '\n' then [] else if ['$', backquote, '"', '\\'].contains c then [c]
      else ['\\', c]
    return (.text (String.ofList text) true :: word, rest)
  | fuel + 1, '$' :: rest => do
    let (piece, rest) ← dollar? true rest
    let (word, rest) ← doubleQuoted? fuel rest
    return (piece :: word, rest)
  | fuel + 1, c :: rest => do
    let (piece, rest) ← if c = backquote then do
        let (script, rest) ← backquoted? rest
        pure (Piece.command (String.ofList script) true, rest)
      else some (Piece.text (String.ofList [c]) true, rest)
    let (word, rest) ← doubleQuoted? fuel rest
    return (piece :: word, rest)

/-- Reads a word up to its end. It has no end if a quote or bracket in it has none. -/
def readWord? (isEnd : Char → Bool) : Nat → List Char → Option (Word × List Char)
  | 0, _ => none
  | _, [] => some ([], [])
  | fuel + 1, '\\' :: '\n' :: rest => readWord? isEnd fuel rest
  | fuel + 1, '\\' :: c :: rest => do
    let (word, rest) ← readWord? isEnd fuel rest
    return (.text (String.ofList [c]) true :: word, rest)
  | fuel + 1, '\'' :: rest => do
    let text := rest.takeWhile (· ≠ '\'')
    if text.length = rest.length then none
    let (word, rest) ← readWord? isEnd fuel (rest.drop (text.length + 1))
    return (.text (String.ofList text) true :: word, rest)
  | fuel + 1, '"' :: rest => do
    let (quoted, rest) ← doubleQuoted? (rest.length + 1) rest
    let (word, rest) ← readWord? isEnd fuel rest
    return ((if quoted.isEmpty then [.text "" true] else quoted) ++ word, rest)
  | fuel + 1, '$' :: rest => do
    let (piece, rest) ← dollar? false rest
    let (word, rest) ← readWord? isEnd fuel rest
    return (piece :: word, rest)
  | fuel + 1, c :: rest =>
    if isEnd c then some ([], c :: rest)
    else do
      let (piece, rest) ← if c = backquote then do
          let (script, rest) ← backquoted? rest
          pure (Piece.command (String.ofList script) false, rest)
        else some (Piece.text (String.ofList [c]) false, rest)
      let (word, rest) ← readWord? isEnd fuel rest
      return (piece :: word, rest)

/-- The text of a word that is written without quotes, parameters and commands. -/
def plainText? (word : Word) : Option Octets :=
  (word.mapM fun
    | Piece.text text false => some text
    | _ => none).map String.join

end ArchiveScript.Shell
