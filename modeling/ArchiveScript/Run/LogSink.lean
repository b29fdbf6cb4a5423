/-! # Where log lines go

Log lines are kept in a buffer, or dropped when nothing is to be said.
-/

namespace ArchiveScript

inductive LogSink where
  | buffer (text : String)
  | silent
  deriving DecidableEq, Repr

namespace LogSink

def println (line : String) : LogSink → LogSink
  | buffer text => buffer (text ++ line ++ "\n")
  | silent => silent

def output : LogSink → String
  | buffer text => text
  | silent => ""

def clear : LogSink → LogSink
  | buffer _ => buffer ""
  | silent => silent

end LogSink

end ArchiveScript
