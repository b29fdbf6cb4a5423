/-! # Outcomes of a run

How a run ended, as the program that ran the script reports it.
-/

namespace ArchiveScript

inductive Status where
  | ok
  | specUnreadable
  | semanticError
  | sqlError
  | scriptError
  | assertionFailure
  | astError
  | internalError
  | archiveError
  | syntaxError
  | couldNotParseOptions
  | directoryDoesNotExist
  | fileNotSpecified
  | fileNotFound
  | configFileUnreadable
  deriving DecidableEq, Repr

namespace Status

def name : Status → String
  | ok => "Ok"
  | specUnreadable => "SpecUnreadable"
  | semanticError => "SemanticError"
  | sqlError => "SqlError"
  | scriptError => "ScriptError"
  | assertionFailure => "AssertionFailure"
  | astError => "AstError"
  | internalError => "InternalError"
  | archiveError => "ArchiveError"
  | syntaxError => "SyntaxError"
  | couldNotParseOptions => "CouldNotParseOptions"
  | directoryDoesNotExist => "DirectoryDoesNotExist"
  | fileNotSpecified => "DbspecFileNotSpecified"
  | fileNotFound => "DbspecFileNotFound"
  | configFileUnreadable => "ConfigFileUnreadable"

/-- The exit code of the program. -/
def code : Status → Nat
  | ok => 0
  | specUnreadable => 1
  | semanticError => 2
  | sqlError => 3
  | scriptError => 4
  | assertionFailure => 5
  | astError => 6
  | internalError => 7
  | archiveError => 8
  | syntaxError => 9
  | couldNotParseOptions => 100
  | directoryDoesNotExist => 101
  | fileNotSpecified => 102
  | fileNotFound => 103
  | configFileUnreadable => 104

def all : List Status :=
  [ok, specUnreadable, semanticError, sqlError, scriptError, assertionFailure, astError,
    internalError, archiveError, syntaxError, couldNotParseOptions, directoryDoesNotExist,
    fileNotSpecified, fileNotFound, configFileUnreadable]

def ofName? (name : String) : Option Status := all.find? (·.name == name)

def render (status : Status) : String := status.name ++ s!" ({status.code})"

/-- Different outcomes have different exit codes. -/
theorem code_injective {a b : Status} : a.code = b.code → a = b := by
  cases a <;> cases b <;> decide

end Status

end ArchiveScript
