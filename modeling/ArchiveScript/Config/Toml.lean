/-! # TOML documents

A TOML document is a table of named items. Tables come into being in several ways, and it depends
on the way what may be added to them later.
-/

namespace ArchiveScript.Toml

/-- How a table came into being. -/
inductive Origin where
  /-- By a header of its own. -/
  | header
  /-- By the header of a table inside it. -/
  | outer
  /-- By a dotted key. -/
  | dotted
  deriving DecidableEq, Repr

/-- A number with a point or an exponent. -/
inductive Number where
  /-- The digits times a power of ten. -/
  | finite (negative : Bool) (digits : Nat) (exponent : Int)
  | infinite (negative : Bool)
  | notANumber
  deriving DecidableEq, Repr

inductive Item where
  | string (text : String)
  | integer (n : Int)
  | float (number : Number)
  | boolean (b : Bool)
  /-- A date, a time of day or both, in its usual form. -/
  | date (text : String)
  | array (items : List Item)
  /-- A table between braces, to which nothing can be added. -/
  | inlineTable (entries : List (String × Item))
  | table (origin : Origin) (entries : List (String × Item))
  /-- Tables of one name, the last one first. -/
  | tables (all : List (List (String × Item)))
  deriving Repr

/-- Named items. -/
abbrev Entries := List (String × Item)

namespace Entries

def get? (entries : Entries) (key : String) : Option Item :=
  (entries.find? (·.1 == key)).map (·.2)

/-- Replaces an item, or adds it after the others. -/
def put (entries : Entries) (key : String) (item : Item) : Entries :=
  if (get? entries key).isSome then
    entries.map fun entry => if entry.1 == key then (key, item) else entry
  else entries ++ [(key, item)]

/-- Changes the entries of the table at the end of a path of keys, which comes into being with its
first use. Keys of a header pass through all tables, and into the last of several; dotted keys pass
through no table that has a header. -/
def within (origin : Origin) (f : Entries → Option Entries) : List String → Entries → Option Entries
  | [], entries => f entries
  | key :: path, entries => do
    match get? entries key with
    | none => return put entries key (.table origin (← within origin f path []))
    | some (.table old inner) =>
      if origin = .dotted ∧ old = .header then none
      else return put entries key (.table old (← within origin f path inner))
    | some (.tables (inner :: rest)) =>
      return put entries key (.tables ((← within origin f path inner) :: rest))
    | some _ => none

/-- Adds an item under a key that is not in use. -/
def add (key : String) (item : Item) (entries : Entries) : Option Entries :=
  if (get? entries key).isSome then none else some (entries ++ [(key, item)])

/-- The way in which the table at the end of a path came into being. -/
def originAt? : List String → Entries → Option Origin
  | [], _ => none
  | [key], entries =>
    match get? entries key with
    | some (.table origin _) => some origin
    | _ => none
  | key :: path, entries =>
    match get? entries key with
    | some (.table _ inner) => originAt? path inner
    | some (.tables (inner :: _)) => originAt? path inner
    | _ => none

/-- Adds an item under a dotted key. The tables on the way must come from dotted keys. -/
def addAt (path : List String) (key : String) (item : Item) (entries : Entries) :
    Option Entries := do
  let entries ← within .dotted (add key item) path entries
  if path ≠ [] ∧ originAt? path entries ≠ some .dotted then none else some entries

/-- Begins the table of a header. It may exist only because of a table inside it; it then comes
after the others. -/
def openTable (key : String) (entries : Entries) : Option Entries :=
  match get? entries key with
  | none => some (entries ++ [(key, .table .header [])])
  | some (.table .outer inner) =>
    some (entries.filter (·.1 != key) ++ [(key, .table .header inner)])
  | some _ => none

/-- Begins one more of several tables. -/
def openTables (key : String) (entries : Entries) : Option Entries :=
  match get? entries key with
  | none => some (entries ++ [(key, .tables [[]])])
  | some (.tables all) => some (put entries key (.tables ([] :: all)))
  | some _ => none

end Entries

end ArchiveScript.Toml
