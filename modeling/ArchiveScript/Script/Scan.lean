import ArchiveScript.Script.Builder
import ArchiveScript.Text.Blank

/-! # Scanning a line

A scan is what is left of a line, with the offset of its first byte. Words and names are ASCII,
so no step ends inside a character.
-/

namespace ArchiveScript

/-- The part of a line that has not been read. -/
structure Scan where
  pos : Nat
  rest : List Char
  deriving DecidableEq, Repr

def isNameStart (c : Char) : Bool := c.isAlpha || c == '_'

def isNamePart (c : Char) : Bool := c.isAlphanum || c == '_'

/-- A property may be named with points and dashes, too. -/
def isPropertyPart (c : Char) : Bool := isNamePart c || c == '.' || c == '-'

namespace Scan

/-- The offset at which the line ends. -/
def limit (s : Scan) : Nat := s.pos + Text.bytes s.rest

def point (s : Scan) : Span := .between s.pos s.pos

/-- The span of all that is left. -/
def restSpan (s : Scan) : Span := .between s.pos s.limit

/-- Passes over `n` characters. -/
def skip (n : Nat) (s : Scan) : Scan :=
  ⟨s.pos + Text.bytes (s.rest.take n), s.rest.drop n⟩

/-- Passes over the characters of a class. -/
def skipWhile (p : Char → Bool) (s : Scan) : Scan :=
  ⟨s.pos + Text.bytes (s.rest.takeWhile p), s.rest.dropWhile p⟩

def skipBlanks (s : Scan) : Scan := s.skipWhile Text.isIndent

/-- Passes over `sign` if it comes next. -/
def eat? (sign : List Char) (s : Scan) : Option Scan :=
  if sign.isPrefixOf s.rest then some (s.skip sign.length) else none

/-- A word comes next if no part of a name follows it. -/
def atWord (word : List Char) (s : Scan) : Bool :=
  word.isPrefixOf s.rest && !((s.rest.drop word.length).head?.any isNamePart)

/-- Passes over `word` if it comes next. -/
def eatWord? (word : List Char) (s : Scan) : Option Scan :=
  if s.atWord word then some (s.skip word.length) else none

/-- A name whose parts after its start are of the given class. -/
def nameOf? (part : Char → Bool) (s : Scan) : Option (List Char × Scan) :=
  if s.rest.head?.any isNameStart then some (s.rest.takeWhile part, s.skipWhile part) else none

def name? (s : Scan) : Option (List Char × Scan) := s.nameOf? isNamePart

section

open Builder (fail leaf)

variable {m : Type → Type} {ν : Type} [Builder m ν]

/-- Nothing but blanks may be left. -/
def finish (s : Scan) : m Unit :=
  let s := s.skipBlanks
  if s.rest.isEmpty then pure ()
  else fail (.unexpected (String.ofList (Text.trimEnd s.rest))) s.restSpan

/-- A colon that ends the line. -/
def blockColon (s : Scan) : m Unit :=
  let s := s.skipBlanks
  match s.eat? [':'] with
  | some s => s.finish
  | none => fail (.expectedSign ":") s.point

/-- A word that has to come next. -/
def word (w : String) (s : Scan) : m Scan :=
  let s := s.skipBlanks
  match s.eatWord? w.toList with
  | some s => pure s
  | none => fail (.expectedSign w) s.point

/-- A name that has to come next; `thing` says what it names. -/
def identifier (thing : String) (s : Scan) : m (ν × Scan) :=
  let s := s.skipBlanks
  match s.name? with
  | some (name, rest) => return (← leaf .identifier s.pos name, rest)
  | none => fail (.expected thing) s.point

/-- A description in quotes, which may be left out. It covers the text between the quotes. -/
def description? (s : Scan) : m (Option ν × Scan) :=
  let s := s.skipBlanks
  match s.rest with
  | '"' :: _ =>
    let inner := s.skip 1
    let text := inner.rest.takeWhile (· != '"')
    if text.length < inner.rest.length then
      return (some (← leaf .shortDescription inner.pos text), inner.skip (text.length + 1))
    else fail .unterminatedDescription (.between s.pos s.limit)
  | _ => return (none, s)

end

@[simp]
theorem rest_skip (n : Nat) (s : Scan) : (s.skip n).rest = s.rest.drop n := rfl

@[simp]
theorem rest_skipWhile (p : Char → Bool) (s : Scan) :
    (s.skipWhile p).rest = s.rest.dropWhile p := rfl

@[simp]
theorem limit_skip (n : Nat) (s : Scan) : (s.skip n).limit = s.limit := by
  have h := congrArg Text.bytes (List.take_append_drop n s.rest)
  rw [Text.bytes_append] at h
  simp only [limit, skip]
  omega

@[simp]
theorem limit_skipWhile (p : Char → Bool) (s : Scan) : (s.skipWhile p).limit = s.limit := by
  have h := congrArg Text.bytes (List.takeWhile_append_dropWhile (p := p) (l := s.rest))
  rw [Text.bytes_append] at h
  simp only [limit, skipWhile]
  omega

end Scan

end ArchiveScript
