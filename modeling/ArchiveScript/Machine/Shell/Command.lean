import ArchiveScript.Machine.Shell.Word

/-! # Commands of the shell

A script is a sequence of commands, each of which is read only when the ones before it were run.
-/

namespace ArchiveScript.Shell

/-- The parts of a script. -/
inductive Token where
  | word (word : Word)
  | operator (sign : String)
  /-- The number right before a redirection. -/
  | number (n : Nat)
  | newline
  /-- A quote or bracket without an end; nothing can be read from here on. -/
  | broken
  deriving DecidableEq, Repr

/-- A token and the line that it stands on. -/
structure Lexeme where
  token : Token
  line : Nat
  deriving DecidableEq, Repr

/-- The operator that comes next; the longest one counts. -/
def operator? (cs : List Char) : Option String :=
  ["&&", "||", ";;", ">>", "<<", ">&", "<&", ">|", ";", "&", "|", "<", ">", "(", ")"].find?
    fun sign => sign.toList.isPrefixOf cs

/-- The number right before a redirection. -/
def redirectNumber? (cs : List Char) : Option (Nat × List Char) :=
  match cs with
  | c :: d :: rest =>
    if c.isDigit && (d = '<' || d = '>') then some (c.toNat - '0'.toNat, d :: rest) else none
  | _ => none

/-- Divides a script into its tokens. -/
def lexemes : Nat → Nat → List Char → List Lexeme
  | 0, _, _ => []
  | _, _, [] => []
  | fuel + 1, line, ' ' :: rest => lexemes fuel line rest
  | fuel + 1, line, '\t' :: rest => lexemes fuel line rest
  | fuel + 1, line, '\\' :: '\n' :: rest => lexemes fuel (line + 1) rest
  | fuel + 1, line, '\n' :: rest => ⟨.newline, line⟩ :: lexemes fuel (line + 1) rest
  | fuel + 1, line, '#' :: rest => lexemes fuel line (rest.dropWhile (· ≠ '\n'))
  | fuel + 1, line, cs =>
    match redirectNumber? cs with
    | some (n, rest) => ⟨.number n, line⟩ :: lexemes fuel line rest
    | none =>
      match operator? cs with
      | some sign => ⟨.operator sign, line⟩ :: lexemes fuel line (cs.drop sign.length)
      | none =>
        match readWord? isBoundary (cs.length + 1) cs with
        | none => [⟨.broken, line⟩]
        | some (word, rest) =>
          let lines := ((cs.take (cs.length - rest.length)).filter (· = '\n')).length
          ⟨.word word, line⟩ :: lexemes fuel (line + lines) rest

def scriptLexemes (script : Octets) : List Lexeme :=
  lexemes (script.length + 1) 1 script.toList

/-- A change of where input comes from or output goes to. -/
inductive Redirect where
  | read (fd : Nat) (path : Word)
  | write (fd : Nat) (append : Bool) (path : Word)
  /-- The output goes where another one goes. -/
  | copy (fd : Nat) (other : Word)

inductive Command where
  | simple (line : Nat) (assignments : List (Octets × Word)) (words : List Word)
    (redirects : List Redirect)
  | redirected (line : Nat) (command : Command) (redirects : List Redirect)
  | sequence (first second : Command)
  | both (first second : Command)
  | either (first second : Command)
  | negated (command : Command)
  | pipe (first second : Command)
  | subshell (command : Command)
  | choose (condition thenPart elsePart : Command)
  | loop (whileFails : Bool) (condition body : Command)
  /-- For each word; for each argument if no words are given. -/
  | each (name : Octets) (words : Option (List Word)) (body : Command)
  | nothing

/-- The token that cannot stand where it does, which is none at the end of the script, and what
was expected there. -/
structure Unexpected where
  found : Option Lexeme
  expected : Option String := none

/-- What was read, and the tokens that are left. -/
abbrev Parsed (α : Type) := α × List Lexeme

/-- The name that a word consists of. -/
def nameOf? (word : Word) : Option Octets := do
  let text ← plainText? word
  let c ← text.toList.head?
  if isNameStart c && text.toList.all isNamePart then some text else none

/-- The words that mean something of their own at the start of a command. -/
def reserved : List String :=
  ["if", "then", "else", "elif", "fi", "for", "while", "until", "do", "done", "\x7b", "\x7d", "!",
    "case", "esac", "in"]

/-- The reserved word that comes next. -/
def reserved? : List Lexeme → Option String
  | ⟨.word word, _⟩ :: _ => (plainText? word).filter reserved.contains
  | _ => none

def skipNewlines : List Lexeme → List Lexeme
  | ⟨.newline, _⟩ :: rest => skipNewlines rest
  | lexemes => lexemes

def unexpected {α : Type} (lexemes : List Lexeme) : Except Unexpected (Parsed α) :=
  .error ⟨lexemes.head?, none⟩

/-- Reads a reserved word that has to come next. -/
def keyword (text : String) (lexemes : List Lexeme) : Except Unexpected (List Lexeme) :=
  let lexemes := skipNewlines lexemes
  if reserved? lexemes = some text then .ok lexemes.tail
  else .error ⟨lexemes.head?, some text⟩

/-- Reads a redirection if one comes next. -/
def redirect? (lexemes : List Lexeme) : Option (Except Unexpected (Parsed Redirect)) :=
  let read (fd : Option Nat) (lexemes : List Lexeme) :
      Option (Except Unexpected (Parsed Redirect)) :=
    match lexemes with
    | ⟨.operator sign, _⟩ :: ⟨.word word, _⟩ :: rest =>
      match sign with
      | "<" => some (.ok (.read (fd.getD 0) word, rest))
      | ">" | ">|" => some (.ok (.write (fd.getD 1) false word, rest))
      | ">>" => some (.ok (.write (fd.getD 1) true word, rest))
      | ">&" => some (.ok (.copy (fd.getD 1) word, rest))
      | "<&" => some (.ok (.copy (fd.getD 0) word, rest))
      | _ => none
    | ⟨.operator sign, _⟩ :: rest =>
      if ["<", ">", ">|", ">>", ">&", "<&"].contains sign then some (unexpected rest) else none
    | _ => none
  match lexemes with
  | ⟨.number n, _⟩ :: rest => read (some n) rest
  | lexemes => read none lexemes

def redirects : Nat → List Lexeme → Except Unexpected (Parsed (List Redirect))
  | 0, lexemes => .ok ([], lexemes)
  | fuel + 1, lexemes =>
    match redirect? lexemes with
    | none => .ok ([], lexemes)
    | some (.error lexeme) => .error lexeme
    | some (.ok (redirect, rest)) => do
      let (more, rest) ← redirects fuel rest
      return (redirect :: more, rest)

/-- The assignment that a word is. -/
def assignment? (word : Word) : Option (Octets × Word) :=
  let isPlain : Piece → Bool
    | .text _ false => true
    | _ => false
  let isEquals (piece : Piece) : Bool := piece = .text "=" false
  let front := word.takeWhile fun piece => isPlain piece && !isEquals piece
  match nameOf? front, (word.drop front.length) with
  | some name, piece :: value => if isEquals piece then some (name, value) else none
  | _, _ => none

/-- Reads the words and redirections of a simple command. -/
def simpleParts : Nat → Bool → List Lexeme →
    Except Unexpected (Parsed (List (Octets × Word) × List Word × List Redirect))
  | 0, _, lexemes => .ok (([], [], []), lexemes)
  | fuel + 1, atStart, lexemes =>
    match redirect? lexemes with
    | some (.error lexeme) => .error lexeme
    | some (.ok (redirect, rest)) => do
      let ((assignments, words, redirects), rest) ← simpleParts fuel atStart rest
      return ((assignments, words, redirect :: redirects), rest)
    | none =>
      match lexemes with
      | ⟨.word word, _⟩ :: rest =>
        match (if atStart then assignment? word else none) with
        | some assignment => do
          let ((assignments, words, redirects), rest) ← simpleParts fuel true rest
          return ((assignment :: assignments, words, redirects), rest)
        | none => do
          let ((assignments, words, redirects), rest) ← simpleParts fuel false rest
          return ((assignments, word :: words, redirects), rest)
      | lexemes => .ok (([], [], []), lexemes)

/-- The words of a loop, up to the end of the line. -/
def loopWords : List Lexeme → List Word × List Lexeme
  | ⟨.word word, _⟩ :: rest =>
    let (words, rest) := loopWords rest
    (word :: words, rest)
  | lexemes => ([], lexemes)

/-- Reads commands until something comes that begins none; `lines` says whether they may go over
several lines. -/
abbrev Reader := (lines : Bool) → List Lexeme → Except Unexpected (Parsed Command)

/-- Reads a block that ends with a reserved word. -/
def blockUntil (list : Reader) (last : String) (lexemes : List Lexeme) :
    Except Unexpected (Parsed Command) := do
  let (body, rest) ← list true lexemes
  let rest ← keyword last rest
  return (body, rest)

/-- Reads what follows the condition of a choice. -/
def choiceParts (list : Reader) : Nat → List Lexeme → Except Unexpected (Parsed Command)
  | 0, lexemes => unexpected lexemes
  | fuel + 1, lexemes => do
    let (condition, rest) ← blockUntil list "then" lexemes
    let (thenPart, rest) ← list true rest
    let rest := skipNewlines rest
    match reserved? rest with
    | some "elif" =>
      let (elsePart, rest) ← choiceParts list fuel rest.tail
      return (.choose condition thenPart elsePart, rest)
    | some "else" =>
      let (elsePart, rest) ← blockUntil list "fi" rest.tail
      return (.choose condition thenPart elsePart, rest)
    | some "fi" => return (.choose condition thenPart .nothing, rest.tail)
    | _ => throw ⟨rest.head?, some "fi"⟩

/-- Reads what follows the name of a loop variable. -/
def eachParts (list : Reader) (name : Octets) (lexemes : List Lexeme) :
    Except Unexpected (Parsed Command) := do
  let body (words : Option (List Word)) (rest : List Lexeme) :
      Except Unexpected (Parsed Command) := do
    let rest := match rest with
      | ⟨.operator ";", _⟩ :: rest => rest
      | rest => rest
    let rest ← keyword "do" rest
    let (body, rest) ← blockUntil list "done" rest
    return (.each name words body, rest)
  let next := skipNewlines lexemes
  if reserved? next = some "in" then
    let (words, rest) := loopWords next.tail
    body (some words) rest
  else body none lexemes

/-- Reads what follows the beginning of a loop. -/
def loopParts (list : Reader) (whileFails : Bool) (lexemes : List Lexeme) :
    Except Unexpected (Parsed Command) := do
  let (condition, rest) ← blockUntil list "do" lexemes
  let (body, rest) ← blockUntil list "done" rest
  return (.loop whileFails condition body, rest)

/-- Reads what follows an open bracket. -/
def subshellParts (list : Reader) (lexemes : List Lexeme) :
    Except Unexpected (Parsed Command) := do
  let (body, rest) ← list true lexemes
  match skipNewlines rest with
  | ⟨.operator ")", _⟩ :: rest => return (.subshell body, rest)
  | rest => throw ⟨rest.head?, some ")"⟩

/-- Reads a command that is made up of others, if one comes next. -/
def compound? (list : Reader) (lexemes : List Lexeme) :
    Option (Except Unexpected (Parsed Command)) :=
  match lexemes with
  | ⟨.operator "(", _⟩ :: rest => some (subshellParts list rest)
  | lexemes =>
    match reserved? lexemes with
    | some "\x7b" => some (blockUntil list "\x7d" lexemes.tail)
    | some "if" => some (choiceParts list lexemes.length lexemes.tail)
    | some "while" => some (loopParts list false lexemes.tail)
    | some "until" => some (loopParts list true lexemes.tail)
    | some "for" =>
      match lexemes.tail with
      | ⟨.word word, line⟩ :: rest =>
        match nameOf? word with
        | some name => some (eachParts list name rest)
        | none => some (unexpected (⟨.word word, line⟩ :: rest))
      | rest => some (unexpected rest)
    | _ => none

/-- Reads one command of a pipeline. -/
def command (list : Reader) (lexemes : List Lexeme) : Except Unexpected (Parsed Command) :=
  let line := (lexemes.head?.map (·.line)).getD 0
  match compound? list lexemes with
  | some reading => do
    let (inner, rest) ← reading
    let (redirects, rest) ← redirects rest.length rest
    return (if redirects.isEmpty then inner else .redirected line inner redirects, rest)
  | none =>
    if (reserved? lexemes).isSome then unexpected lexemes
    else do
      let ((assignments, words, redirects), rest) ← simpleParts lexemes.length true lexemes
      if assignments.isEmpty && words.isEmpty && redirects.isEmpty then unexpected lexemes
      else
        match rest with
        | ⟨.number _, _⟩ :: _ | ⟨.operator "(", _⟩ :: _ | ⟨.broken, _⟩ :: _ => unexpected rest
        | _ => return (.simple line assignments words redirects, rest)

def pipeline (list : Reader) : Nat → List Lexeme → Except Unexpected (Parsed Command)
  | 0, lexemes => unexpected lexemes
  | fuel + 1, lexemes =>
    if reserved? lexemes = some "!" then do
      let (inner, rest) ← pipeline list fuel lexemes.tail
      return (.negated inner, rest)
    else do
      let (first, rest) ← command list lexemes
      match rest with
      | ⟨.operator "|", _⟩ :: rest =>
        let (second, rest) ← pipeline list fuel (skipNewlines rest)
        return (.pipe first second, rest)
      | rest => return (first, rest)

/-- Reads commands that are joined by what their outcomes decide; `joined` was read before. -/
def conditionsFrom (list : Reader) :
    Nat → Command → List Lexeme → Except Unexpected (Parsed Command)
  | 0, _, lexemes => unexpected lexemes
  | fuel + 1, joined, lexemes =>
    match lexemes with
    | ⟨.operator "&&", _⟩ :: rest => do
      let (next, rest) ← pipeline list rest.length (skipNewlines rest)
      conditionsFrom list fuel (.both joined next) rest
    | ⟨.operator "||", _⟩ :: rest => do
      let (next, rest) ← pipeline list rest.length (skipNewlines rest)
      conditionsFrom list fuel (.either joined next) rest
    | lexemes => .ok (joined, lexemes)

def conditions (list : Reader) (lexemes : List Lexeme) : Except Unexpected (Parsed Command) := do
  let (first, rest) ← pipeline list lexemes.length lexemes
  conditionsFrom list (rest.length + 1) first rest

/-- Whether a list of commands ends before the next token. -/
def atListEnd : List Lexeme → Bool
  | [] => true
  | ⟨.operator ")", _⟩ :: _ => true
  | lexemes => (reserved? lexemes).any
      ["then", "else", "elif", "fi", "do", "done", "\x7d", "esac"].contains

/-- Reads commands one after the other. The fuel bounds the number of commands and how deep they
lie in each other. -/
def list : Nat → Reader
  | 0, _, lexemes => unexpected lexemes
  | fuel + 1, lines, lexemes => do
    let lexemes := if lines then skipNewlines lexemes else lexemes
    let (first, rest) ← conditions (list fuel) lexemes
    let separated := match rest with
      | ⟨.operator ";", _⟩ :: rest | ⟨.operator "&", _⟩ :: rest => some rest
      | ⟨.newline, _⟩ :: rest => if lines then some rest else none
      | _ => none
    match separated with
    | none => return (first, rest)
    | some next =>
      let next := if lines then skipNewlines next else next
      let ended := atListEnd next || (match next with
        | ⟨.newline, _⟩ :: _ => true
        | _ => false)
      if ended then return (first, next)
      else
        let (second, rest) ← list fuel lines next
        return (.sequence first second, rest)

/-- Reads the commands of the next line that has some. -/
def nextLine (lexemes : List Lexeme) : Except Unexpected (Parsed (Option Command)) :=
  match skipNewlines lexemes with
  | [] => .ok (none, [])
  | lexemes => do
    let (command, rest) ← list (2 * lexemes.length + 2) false lexemes
    match rest with
    | [] => return (some command, [])
    | ⟨.newline, _⟩ :: rest => return (some command, rest)
    | rest => unexpected rest

end ArchiveScript.Shell
