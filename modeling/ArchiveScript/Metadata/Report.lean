import ArchiveScript.Metadata.Outline

/-! # Reports

The report that goes with an archive lists its commands: the title, a line for each parameter, and
the SQL text.
-/

namespace ArchiveScript.Report

/-- What a command says of its parameters and its text. -/
def commandLines (command : Outline CommandKind) : List String :=
  command.data ::
    (command.childrenOf .parameter).map (fun entry => entry.name ++ " - " ++ entry.data) ++
    (command.childrenOf .sql).map Outline.data

def render (commands : List (Outline CommandKind)) : String :=
  String.join ((commands.flatMap commandLines).map (· ++ "\n"))

end ArchiveScript.Report
