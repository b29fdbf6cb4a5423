import ArchiveScript.Source.LineTable

/-! # Excerpts

A diagnostic is a headline followed by the lines that it is about.
-/

namespace ArchiveScript

/-- A headline and the part of the source that it is about. -/
structure Diagnostic where
  headline : String
  span : Option Span

namespace Diagnostic

/-- A line after its number. -/
def excerptLine (table : LineTable) (line : Nat) : String :=
  match table.lineText? line with
  | some text => toString line ++ ":\t" ++ String.ofList text ++ "\n"
  | none => ""

/-- The lines that a span touches, each after its number. -/
def excerpt (table : LineTable) (span : Span) : String :=
  let (first, last) := table.linesOf span
  String.join ((List.range' first (last + 1 - first)).map (excerptLine table))

/-- The headline with the lines of a source that it is about. -/
def render (table : LineTable) (diagnostic : Diagnostic) : String :=
  diagnostic.headline ++ "\n" ++ (diagnostic.span.map (excerpt table)).getD ""

end Diagnostic

end ArchiveScript
