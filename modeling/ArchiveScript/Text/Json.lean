import ArchiveScript.Text.Quoted

/-! # JSON

JSON documents that are laid out for reading: an entry a line, two blanks deeper than what it is
an entry of.
-/

namespace ArchiveScript

/-- The documents that are written: texts, lists and objects with their entries in order. -/
inductive JsonDocument where
  | text (s : String)
  | list (items : List JsonDocument)
  | object (entries : List (String × JsonDocument))

namespace JsonDocument

/-- How a character is written between quotes. Only controls, quotes and backslashes are written
in another way than as they are. -/
def quoteChar (c : Char) : List Char :=
  if c = '"' then ['\\', '"']
  else if c = '\\' then ['\\', '\\']
  else if c = '\n' then ['\\', 'n']
  else if c = '\r' then ['\\', 'r']
  else if c = '\t' then ['\\', 't']
  else if c.toNat = 8 then ['\\', 'b']
  else if c.toNat = 12 then ['\\', 'f']
  else if c.toNat < 0x10 then ['\\', 'u', '0', '0', '0'] ++ Text.hexDigits c.toNat
  else if c.toNat < 0x20 then ['\\', 'u', '0', '0'] ++ Text.hexDigits c.toNat
  else [c]

def quoted (s : String) : String := String.ofList ('"' :: s.toList.flatMap quoteChar ++ ['"'])

/-- A new line at some depth. -/
def newline (depth : Nat) : String := "\n" ++ String.ofList (List.replicate (2 * depth) ' ')

mutual

def renderAt (depth : Nat) : JsonDocument → String
  | text s => quoted s
  | list [] => "[]"
  | list (item :: items) =>
    "[" ++ newline (depth + 1) ++ item.renderAt (depth + 1) ++ itemsAt depth items ++
      newline depth ++ "]"
  | object [] => "\x7b\x7d"
  | object ((name, item) :: entries) =>
    "\x7b" ++ newline (depth + 1) ++ quoted name ++ ": " ++ item.renderAt (depth + 1) ++
      entriesAt depth entries ++ newline depth ++ "\x7d"

/-- The items after the first. -/
def itemsAt (depth : Nat) : List JsonDocument → String
  | [] => ""
  | item :: items =>
    "," ++ newline (depth + 1) ++ item.renderAt (depth + 1) ++ itemsAt depth items

/-- The entries after the first. -/
def entriesAt (depth : Nat) : List (String × JsonDocument) → String
  | [] => ""
  | (name, item) :: entries =>
    "," ++ newline (depth + 1) ++ quoted name ++ ": " ++ item.renderAt (depth + 1) ++
      entriesAt depth entries

end

def render (json : JsonDocument) : String := json.renderAt 0

end JsonDocument

end ArchiveScript
