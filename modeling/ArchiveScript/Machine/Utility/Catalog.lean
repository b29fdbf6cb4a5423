import ArchiveScript.Machine.Utility.Condition
import ArchiveScript.Machine.Utility.Lines
import ArchiveScript.Machine.Utility.Print

/-! # The utilities by name -/

namespace ArchiveScript.Utility

/-- The utilities that are programs of their own. -/
def find? : String → Option (List Octets → Job Nat)
  | "true" => some fun _ => return 0
  | "false" => some fun _ => return 1
  | "sleep" => some fun _ => return 0
  | "echo" => some plainEcho
  | "printf" => some printf
  | "test" => some test
  | "[" => some bracket
  | "pwd" => some fun _ => pwd
  | "cat" => some cat
  | "tee" => some tee
  | "cp" => some cp
  | "mv" => some mv
  | "rm" => some rm
  | "mkdir" => some mkdir
  | "rmdir" => some rmdir
  | "touch" => some touch
  | "chmod" => some chmod
  | "ls" => some ls
  | "basename" => some basename
  | "dirname" => some dirname
  | "head" => some head
  | "tail" => some tail
  | "sort" => some sort
  | "wc" => some wc
  | _ => none

def names : List String :=
  ["true", "false", "sleep", "echo", "printf", "test", "[", "pwd", "cat", "tee", "cp", "mv", "rm",
    "mkdir", "rmdir", "touch", "chmod", "ls", "basename", "dirname", "head", "tail", "sort", "wc"]

/-- The programs that run other programs. -/
def launchers : List String := ["sh", "dash", "bash", "env"]

end ArchiveScript.Utility
