import ArchiveScript.Source.Span
import ArchiveScript.Text.Blank

/-! # Lines

A script is read line by line. A line knows where it starts, how it is indented and how it ends;
its text stands between the two.
-/

namespace ArchiveScript

/-- One line of a script. -/
structure Line where
  /-- The offset of the first byte. -/
  start : Nat
  /-- The leading spaces and tabs. -/
  margin : List Char
  /-- The text between the margin and the terminator. -/
  body : List Char
  /-- What ends the line; empty at the end of the script. -/
  ending : List Char
  deriving DecidableEq, Repr

namespace Line

def indent (line : Line) : Nat := line.margin.length

/-- The offset of the first byte after the margin. -/
def bodyStart (line : Line) : Nat := line.start + Text.bytes line.margin

/-- The offset of the terminator. -/
def stop (line : Line) : Nat := line.bodyStart + Text.bytes line.body

/-- The offset of the next line. -/
def next (line : Line) : Nat := line.stop + Text.bytes line.ending

/-- The end of the text without its trailing blanks. -/
def trimmedStop (line : Line) : Nat := line.bodyStart + Text.bytes (Text.trimEnd line.body)

def isEmpty (line : Line) : Bool := line.body.isEmpty

/-- A comment fills the whole line. -/
def isComment (line : Line) : Bool := line.body.head? == some '#'

/-- Lines that carry no item. -/
def isIdle (line : Line) : Bool := line.isEmpty || line.isComment

/-- The line of a content, its terminator's line feed apart. A carriage return that ends the
content belongs to the terminator. -/
def ofContent (start : Nat) (content feed : List Char) : Line :=
  let (text, ending) :=
    if content.getLast? = some '\r' then (content.dropLast, '\r' :: feed) else (content, feed)
  ⟨start, text.takeWhile Text.isIndent, text.dropWhile Text.isIndent, ending⟩

/-- The lines of a text that begins at `start`. A line feed ends a line, so a text that ends
with one has no empty line after it. `content` holds, in reverse, what the current line has so
far. -/
def splitFrom (start : Nat) (content : List Char) : List Char → List Line
  | [] => if content.isEmpty then [] else [ofContent start content.reverse []]
  | c :: cs =>
    if c = '\n' then
      let line := ofContent start content.reverse ['\n']
      line :: splitFrom line.next [] cs
    else splitFrom start (c :: content) cs

/-- The lines of a script. -/
def split (source : List Char) : List Line := splitFrom 0 [] source

end Line

end ArchiveScript
