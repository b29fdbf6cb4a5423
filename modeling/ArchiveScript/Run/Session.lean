import ArchiveScript.Machine.SystemError
import ArchiveScript.Run.Statement
import ArchiveScript.Run.Timing
import ArchiveScript.Script.Parse
import ArchiveScript.Source.Excerpt

/-! # Sessions

A session reads a script, runs it and says how that ended.
-/

namespace ArchiveScript

/-- Why a file cannot be read as a text. -/
inductive ReadError where
  | failed (error : SystemError)
  | notText
  deriving DecidableEq, Repr

namespace ReadError

def message : ReadError → String
  | failed error => error.message
  | notText => "stream did not contain valid UTF-8"

end ReadError

/-- How a session ended: its status, what it has to say and the state that it left. -/
structure Ending (η κ : Type) where
  status : Status
  diagnostics : String
  world : World η κ

namespace Session

variable {η κ : Type} [Cursor κ] [Host η κ]

/-- What is said of a mistake in a script. -/
def mistakeDiagnostic (mistake : Mistake) : Diagnostic :=
  ⟨"Syntax error: " ++ mistake.message, some mistake.span⟩

def failureDiagnostic (failure : Failure) : Diagnostic := ⟨failure.headline, failure.span⟩

/-- Runs the text of a script, unless there are mistakes in it. -/
def runText (settings : Settings) (timings : Timings) (source : List Char) (world : World η κ) :
    Ending η κ :=
  let read := parse source
  let table := LineTable.ofText source
  if read.mistakes.isEmpty then
    let (outcome, world) := Run.script settings read.tree world
    let report := ((timings.report? 0).map (· ++ "\n")).getD ""
    match outcome with
    | .ok _ => ⟨.ok, report, world⟩
    | .error failure =>
      ⟨failure.status, (failureDiagnostic failure).render table ++ report, world⟩
  else
    let said := read.mistakes.map fun mistake => (mistakeDiagnostic mistake).render table
    ⟨.syntaxError, String.join said, world⟩

/-- Runs a script file. -/
def runFile (settings : Settings) (timings : Timings) (path : Path)
    (content : Except ReadError String) (world : World η κ) : Ending η κ :=
  match content with
  | .error error =>
    ⟨.specUnreadable, "Unable to read " ++ path ++ ": " ++ error.message ++ "\n", world⟩
  | .ok text => runText settings timings text.toList world

end Session

end ArchiveScript
