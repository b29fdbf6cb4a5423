/-! # System errors

Why an operation on files or programs fails. Each cause has a number and a wording.
-/

namespace ArchiveScript

inductive SystemError where
  | missing
  | occupied
  | notDirectory
  | isDirectory
  | notEmpty
  | permissionDenied
  | notProgram
  | nameTooLong
  | tooManyLinks
  deriving DecidableEq, Repr

namespace SystemError

def number : SystemError → Nat
  | missing => 2
  | notProgram => 8
  | permissionDenied => 13
  | occupied => 17
  | notDirectory => 20
  | isDirectory => 21
  | nameTooLong => 36
  | notEmpty => 39
  | tooManyLinks => 40

/-- The wording, as tools give it. -/
def reason : SystemError → String
  | missing => "No such file or directory"
  | notProgram => "Exec format error"
  | permissionDenied => "Permission denied"
  | occupied => "File exists"
  | notDirectory => "Not a directory"
  | isDirectory => "Is a directory"
  | nameTooLong => "File name too long"
  | notEmpty => "Directory not empty"
  | tooManyLinks => "Too many levels of symbolic links"

/-- The wording with the number. -/
def message (error : SystemError) : String :=
  error.reason ++ " (os error " ++ toString error.number ++ ")"

end SystemError

end ArchiveScript
