import ArchiveScript.Config.TomlReader

/-! # Dates in tables

A date can be written as a table whose first entry has a name of its own and gives the date as a
text.
-/

namespace ArchiveScript.Toml

open CharReader

namespace DateTable

/-- The name of the entry that gives the date. -/
def entryName : String := "$__toml_private_datetime"

/-- A date, a time of day or both. A time of day is known by its first colon, and has a distance
from universal time only after a date. -/
def dateText : CharReader (List Char) := do
  match ← get with
  | _ :: _ :: ':' :: _ => partialTime
  | _ =>
    let date ← fullDate
    match ← char? with
    | some 'T' | some 't' | some ' ' =>
      modify (·.drop 1)
      return date ++ 'T' :: (← partialTime) ++ (← offset)
    | _ => return date

/-- The date that a text gives, in its usual form. -/
def ofText? (text : String) : Option String :=
  match dateText.run text.toList with
  | some (date, []) => some (String.ofList date)
  | _ => none

/-- What the first entry gives for a date, if it has the name for that. -/
def given? : Entries → Option Item
  | (key, item) :: _ => if key = entryName then some item else none
  | [] => none

/-- The date of a table that stands for one. -/
def date? (entries : Entries) : Option String :=
  match given? entries with
  | some (.string text) => ofText? text
  | _ => none

/-- Whether a table gives a date, if it stands for one; otherwise its entries decide. -/
def heldBy (entries : Entries) (inside : Bool) : Bool :=
  if (given? entries).isSome then (date? entries).isSome else inside

mutual

/-- Whether all tables that stand for dates do give dates. The other entries of such a table do
not count. -/
def holds : Item → Bool
  | .array items => holdsAll items
  | .inlineTable entries => heldBy entries (holdsEntries entries)
  | .table _ entries => heldBy entries (holdsEntries entries)
  | .tables all => holdsTables all
  | _ => true

def holdsAll : List Item → Bool
  | [] => true
  | item :: rest => holds item && holdsAll rest

def holdsEntries : List (String × Item) → Bool
  | [] => true
  | (_, item) :: rest => holds item && holdsEntries rest

def holdsTables : List (List (String × Item)) → Bool
  | [] => true
  | entries :: rest => heldBy entries (holdsEntries entries) && holdsTables rest

end

end DateTable

end ArchiveScript.Toml
