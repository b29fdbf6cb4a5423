import ArchiveScript.Metadata.Outline
import ArchiveScript.Text.Json

/-! # Metadata documents

The document that tells an archive tool what a script has declared for an archive.
-/

namespace ArchiveScript

namespace Outline

variable {κ : Type} [EntryKind κ]

mutual

def document : Outline κ → JsonDocument
  | mk kind name data children =>
    .object [("kind", .text (EntryKind.tag kind)), ("name", .text name), ("data", .text data),
      ("children", .list (documents children))]

def documents : List (Outline κ) → List JsonDocument
  | [] => []
  | outline :: rest => outline.document :: documents rest

end

end Outline

/-- What the tool is told: the address of the database, from which it takes what is not declared,
and the declared metadata. -/
def adjustRequest (url : String) (metadata : Outline ArchiveKind) : JsonDocument :=
  .object [("url", .text url), ("metadata", metadata.document)]

end ArchiveScript
