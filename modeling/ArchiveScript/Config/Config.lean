import ArchiveScript.Config.DateTable
import ArchiveScript.Decimal.Shortest
import ArchiveScript.Dict

/-! # Configuration

The configuration of a run: the values of its parameters, as texts, and the archive tools.
-/

namespace ArchiveScript

structure Config where
  parameters : Dict String := .empty
  extractCommand : String := "siard-from-db"
  adjustCommand : String := "siard-adjust"
  deriving DecidableEq, Repr

inductive ConfigError where
  /-- No TOML, or not the right entries. -/
  | parse
  | notScalar (name : String)
  deriving DecidableEq, Repr

namespace ConfigError

def message : ConfigError → String
  | parse => "invalid configuration"
  | notScalar name => "parameter '" ++ name ++ "' must be a string, number, boolean or date"

end ConfigError

namespace Config

open Toml (Item Number Entries)

/-- A magnitude is zero or too large if its first digit stands outside of these powers of ten. -/
def leastPower : Int := -400

def greatestPower : Int := 400

/-- The text of the number nearest to a decimal, or none if there is no finite one. -/
def magnitudeText? (digits : Nat) (exponent : Int) : Option String :=
  let power := exponent + (Nat.toDigits 10 digits).length
  if digits = 0 ∨ power < leastPower then some "0"
  else if power > greatestPower then none
  else do
    let (numerator, denominator) := Decimal.tenth digits 1 exponent
    let number ← Binary64.nearest? numerator denominator
    return if number.mantissa = 0 then "0" else (Decimal.shortest number).positional

/-- The text of a number. A number that is too large is refused unless it is negative. -/
def numberText? : Number → Option String
  | .infinite negative => some (if negative then "-inf" else "inf")
  | .notANumber => some "NaN"
  | .finite negative digits exponent =>
    match magnitudeText? digits exponent, negative with
    | some text, false => some text
    | some text, true => some ("-" ++ text)
    | none, true => some "-inf"
    | none, false => none

mutual

/-- Whether an item holds only numbers that can be kept. -/
def numbersFit : Item → Bool
  | .float number => (numberText? number).isSome
  | .array items => numbersFitAll items
  | .inlineTable entries => numbersFitEntries entries
  | .table _ entries => numbersFitEntries entries
  | .tables all => numbersFitTables all
  | _ => true

def numbersFitAll : List Item → Bool
  | [] => true
  | item :: rest => numbersFit item && numbersFitAll rest

def numbersFitEntries : List (String × Item) → Bool
  | [] => true
  | (_, item) :: rest => numbersFit item && numbersFitEntries rest

def numbersFitTables : List (List (String × Item)) → Bool
  | [] => true
  | entries :: rest => numbersFitEntries entries && numbersFitTables rest

end

/-- The text of a scalar. -/
def scalarText? : Item → Option String
  | .string text => some text
  | .integer n => some (toString n)
  | .float number => numberText? number
  | .boolean b => some (if b then "true" else "false")
  | .date text => some text
  | .inlineTable entries => Toml.DateTable.date? entries
  | .table _ entries => Toml.DateTable.date? entries
  | .array _ | .tables _ => none

/-- The entries of a table. A date counts as a table of one entry, which is its text. -/
def entriesOf? : Item → Option Entries
  | .table _ entries => some entries
  | .inlineTable entries => some entries
  | .date text => some [(Toml.DateTable.entryName, .string text)]
  | _ => none

/-- The texts of parameters, or the first one in order that has none. -/
def texts : List (String × Item) → Except ConfigError (List (String × String))
  | [] => .ok []
  | (name, item) :: rest =>
    match scalarText? item with
    | none => .error (.notScalar name)
    | some text => (texts rest).map ((name, text) :: ·)

def parametersOf (item : Option Item) : Except ConfigError (Dict String) :=
  match item with
  | none => .ok .empty
  | some item =>
    match entriesOf? item with
    | none => .error .parse
    | some entries =>
      if Toml.DateTable.holdsEntries entries then do
        let sorted := Dict.ofList entries
        return .ofList (← texts sorted.entries)
      else .error .parse

/-- A tool that is named by a text. -/
def toolOf (default : String) (item : Option Item) : Except ConfigError String :=
  match item with
  | none => .ok default
  | some (.string text) => .ok text
  | some _ => .error .parse

/-- The tools by name, or in order. -/
def toolsOf (config : Config) (item : Option Item) : Except ConfigError Config :=
  match item with
  | none => .ok config
  | some (.array items) => do
    let extractCommand ← toolOf config.extractCommand items[0]?
    let adjustCommand ← toolOf config.adjustCommand items[1]?
    return { config with extractCommand, adjustCommand }
  | some item =>
    match entriesOf? item with
    | none => .error .parse
    | some entries =>
      if entries.all fun entry => ["extract_command", "adjust_command"].contains entry.1 then do
        let extractCommand ← toolOf config.extractCommand (Entries.get? entries "extract_command")
        let adjustCommand ← toolOf config.adjustCommand (Entries.get? entries "adjust_command")
        return { config with extractCommand, adjustCommand }
      else .error .parse

def ofEntries (entries : Entries) : Except ConfigError Config :=
  if entries.all fun entry => ["parameters", "siard"].contains entry.1 then do
    -- What is not right in the shape of the document counts before the parameters.
    let config ← toolsOf {} (Entries.get? entries "siard")
    return { config with parameters := ← parametersOf (Entries.get? entries "parameters") }
  else .error .parse

/-- Reads a configuration. -/
def parse (text : String) : Except ConfigError Config :=
  match Toml.parse? text with
  | none => .error .parse
  | some entries =>
    if numbersFitEntries entries then ofEntries entries
    else .error .parse

end Config

end ArchiveScript
