import ArchiveScript.Config.Toml

/-! # Reading TOML

A reader takes characters off the front of a text and fails without saying why. Arrays and tables
can be nested to a fixed depth.
-/

namespace ArchiveScript.Toml

/-- A reader of characters. -/
abbrev CharReader := StateT (List Char) Option

namespace CharReader

def char? : CharReader (Option Char) := do return (← get).head?

/-- Passes over a character. -/
def expect (c : Char) : CharReader Unit := do
  match ← get with
  | d :: rest => if c = d then set rest else failure
  | [] => failure

/-- Passes over a text if it comes next. -/
def eat (text : List Char) : CharReader Bool := do
  if text.isPrefixOf (← get) then
    modify (·.drop text.length)
    return true
  else return false

def takeWhile (p : Char → Bool) : CharReader (List Char) := do
  let taken := (← get).takeWhile p
  modify (·.drop taken.length)
  return taken

/-- The first reader that succeeds, each from the same place. -/
def either (first second : CharReader α) : CharReader α := fun cs =>
  match first cs with
  | some result => some result
  | none => second cs

end CharReader

open CharReader

def isWs (c : Char) : Bool := c == ' ' || c == '\t'

def ws : CharReader Unit := discard (takeWhile isWs)

/-- Controls other than the tab do not occur in a text. -/
def isTextChar (c : Char) : Bool := c == '\t' || (0x20 ≤ c.toNat && c.toNat != 0x7F)

def newline : CharReader Unit := do
  if ← eat ['\n'] then return
  else if ← eat ['\r', '\n'] then return
  else failure

def comment : CharReader Unit := do
  if ← eat ['#'] then discard (takeWhile isTextChar)

/-- What may stand between the items of an array: blanks, comments and ends of lines. -/
def gap : Nat → CharReader Unit
  | 0 => ws
  | n + 1 => do
    ws
    comment
    match ← char? with
    | some '\n' | some '\r' =>
      newline
      gap n
    | _ => return

/-- The end of a line. -/
def lineEnd : CharReader Unit := do
  ws
  comment
  if (← get).isEmpty then return else newline

def hexDigit? (c : Char) : Option Nat :=
  if c.isDigit then some (c.toNat - '0'.toNat)
  else if 'a' ≤ c && c ≤ 'f' then some (c.toNat - 'a'.toNat + 10)
  else if 'A' ≤ c && c ≤ 'F' then some (c.toNat - 'A'.toNat + 10)
  else none

/-- The value of the next `count` digits in base sixteen. -/
def hexNumber (value : Nat) : Nat → CharReader Nat
  | 0 => return value
  | count + 1 => do
    match ← get with
    | [] => failure
    | c :: rest =>
      set rest
      match hexDigit? c with
      | some digit => hexNumber (16 * value + digit) count
      | none => failure

def charOf (value : Nat) : CharReader Char :=
  if h : value.isValidChar then return Char.ofNatAux value h else failure

/-- The character of an escape sequence, after its backslash. -/
def escaped : CharReader Char := do
  match ← get with
  | [] => failure
  | c :: rest =>
    set rest
    match c with
    | 'b' => return Char.ofNat 8
    | 't' => return '\t'
    | 'n' => return '\n'
    | 'f' => return Char.ofNat 12
    | 'r' => return '\r'
    | '"' => return '"'
    | '\\' => return '\\'
    | 'u' => charOf (← hexNumber 0 4)
    | 'U' => charOf (← hexNumber 0 8)
    | _ => failure

/-- The rest of a string on one line, up to its closing quote. -/
def basicRest : Nat → CharReader (List Char)
  | 0 => failure
  | n + 1 => do
    match ← get with
    | [] => failure
    | c :: rest =>
      set rest
      if c = '"' then return []
      else if c = '\\' then return (← escaped) :: (← basicRest n)
      else if isTextChar c then return c :: (← basicRest n)
      else failure

/-- Passes over blanks and ends of lines. -/
def skipFold : Nat → CharReader Unit
  | 0 => return
  | n + 1 => do
    ws
    match ← char? with
    | some '\n' | some '\r' =>
      newline
      skipFold n
    | _ => return

/-- Up to two more quotes after the three that end a text belong to the text. -/
def closingQuotes (quote : Char) : CharReader (Option (List Char)) := do
  let quotes := (← get).takeWhile (· == quote)
  if quotes.length < 3 then return none
  else
    let count := min quotes.length 5
    modify (·.drop count)
    return some (List.replicate (count - 3) quote)

/-- The rest of a string over several lines. -/
def mlBasicRest : Nat → CharReader (List Char)
  | 0 => failure
  | n + 1 => do
    match ← closingQuotes '"' with
    | some quotes => return quotes
    | none =>
      match ← get with
      | [] => failure
      | '\\' :: rest =>
        set rest
        match rest.dropWhile isWs with
        | '\n' :: _ | '\r' :: _ =>
          ws
          newline
          skipFold rest.length
          mlBasicRest n
        | _ => return (← escaped) :: (← mlBasicRest n)
      | '\n' :: _ | '\r' :: _ =>
        newline
        return '\n' :: (← mlBasicRest n)
      | c :: rest =>
        if isTextChar c then
          set rest
          return c :: (← mlBasicRest n)
        else failure

def mlLiteralRest : Nat → CharReader (List Char)
  | 0 => failure
  | n + 1 => do
    match ← closingQuotes '\'' with
    | some quotes => return quotes
    | none =>
      match ← get with
      | [] => failure
      | '\n' :: _ | '\r' :: _ =>
        newline
        return '\n' :: (← mlLiteralRest n)
      | c :: rest =>
        if isTextChar c then
          set rest
          return c :: (← mlLiteralRest n)
        else failure

/-- A string of which nothing but its quotes is special. -/
def literalString : CharReader String := do
  expect '\''
  let text ← takeWhile fun c => c != '\'' && isTextChar c
  expect '\''
  return String.ofList text

def basicString : CharReader String := do
  expect '"'
  return String.ofList (← basicRest ((← get).length + 1))

/-- An end of line right after the opening quotes does not belong to the text. -/
def skipFirstFeed : CharReader Unit := do
  match ← char? with
  | some '\n' | some '\r' => newline
  | _ => return

def string : CharReader String := do
  if ← eat ['"', '"', '"'] then
    skipFirstFeed
    return String.ofList (← mlBasicRest ((← get).length + 1))
  else if ← eat ['\'', '\'', '\''] then
    skipFirstFeed
    return String.ofList (← mlLiteralRest ((← get).length + 1))
  else
    match ← char? with
    | some '"' => basicString
    | _ => literalString

def isBareKey (c : Char) : Bool := c.isAlphanum || c == '_' || c == '-'

def simpleKey : CharReader String := do
  match ← char? with
  | some '"' => basicString
  | some '\'' => literalString
  | _ =>
    let key ← takeWhile isBareKey
    if key.isEmpty then failure else return String.ofList key

/-- The keys after the first one of a dotted key. -/
def moreKeys : Nat → CharReader (List String)
  | 0 => return []
  | n + 1 => do
    let here ← get
    ws
    if ← eat ['.'] then
      ws
      return (← simpleKey) :: (← moreKeys n)
    else
      set here
      return []

/-- Nothing is nested to this depth. -/
def maxDepth : Nat := 80

/-- A key, which may be dotted. -/
def key : CharReader (List String) := do
  let first ← simpleKey
  let keys := first :: (← moreKeys (← get).length)
  if maxDepth ≤ keys.length then failure else return keys

/-- Digits between which single underscores may stand. -/
def digitRun (isDigit : Char → Bool) : CharReader (List Char) := do
  let run ← takeWhile fun c => isDigit c || c == '_'
  let doubled := (run.zip (run.drop 1)).any fun (a, b) => a == '_' && b == '_'
  if run.isEmpty || run.head? == some '_' || run.getLast? == some '_' || doubled then failure
  else return run.filter (· != '_')

def valueIn (base : Nat) (digits : List Char) : Nat :=
  digits.foldl (fun value c => base * value + (hexDigit? c).getD 0) 0

def sign : CharReader Bool := do
  if ← eat ['-'] then return true
  else
    discard (eat ['+'])
    return false

/-- Digits without a zero before the others. -/
def plainDigits : CharReader (List Char) := do
  let digits ← digitRun Char.isDigit
  if 1 < digits.length && digits.head? == some '0' then failure else return digits

/-- Integers have 64 bits. -/
def fits (n : Int) : Bool := -9223372036854775808 ≤ n && n ≤ 9223372036854775807

def ranged (n : Int) : CharReader Item := if fits n then return .integer n else failure

def isOctal (c : Char) : Bool := '0' ≤ c && c ≤ '7'

def isBinary (c : Char) : Bool := c == '0' || c == '1'

def integer : CharReader Item := do
  if ← eat ['0', 'x'] then ranged (valueIn 16 (← digitRun fun c => (hexDigit? c).isSome))
  else if ← eat ['0', 'o'] then ranged (valueIn 8 (← digitRun isOctal))
  else if ← eat ['0', 'b'] then ranged (valueIn 2 (← digitRun isBinary))
  else
    let negative ← sign
    let n : Int := valueIn 10 (← plainDigits)
    ranged (if negative then -n else n)

/-- The digits after the point. -/
def fraction : CharReader (List Char) := do
  expect '.'
  digitRun Char.isDigit

def exponent : CharReader Int := do
  match ← char? with
  | some 'e' | some 'E' =>
    modify (·.drop 1)
    let negative ← sign
    let n : Int := valueIn 10 (← digitRun Char.isDigit)
    return if negative then -n else n
  | _ => failure

def finiteFloat : CharReader Item := do
  let negative ← sign
  let whole ← plainDigits
  let places ← either (some <$> fraction) (return none)
  let scale ← if places.isSome then either exponent (return 0) else exponent
  let digits := whole ++ places.getD []
  return .float (.finite negative (valueIn 10 digits) (scale - (places.getD []).length))

def specialFloat : CharReader Item := do
  let negative ← sign
  if ← eat ['i', 'n', 'f'] then return .float (.infinite negative)
  else if ← eat ['n', 'a', 'n'] then return .float .notANumber
  else failure

/-- A number of exactly `count` digits within limits, with its digits. -/
def fixedNumber (count low high : Nat) : CharReader (List Char) := do
  let digits := ((← get).take count)
  if digits.length = count ∧ digits.all Char.isDigit ∧ low ≤ valueIn 10 digits ∧
      valueIn 10 digits ≤ high then
    modify (·.drop count)
    return digits
  else failure

def isLeap (year : Nat) : Bool := year % 4 = 0 && (year % 100 ≠ 0 || year % 400 = 0)

def daysIn (year month : Nat) : Nat :=
  if month = 2 then (if isLeap year then 29 else 28)
  else if month = 4 ∨ month = 6 ∨ month = 9 ∨ month = 11 then 30
  else 31

def fullDate : CharReader (List Char) := do
  let year ← fixedNumber 4 0 9999
  expect '-'
  let month ← fixedNumber 2 1 12
  expect '-'
  let day ← fixedNumber 2 1 (daysIn (valueIn 10 year) (valueIn 10 month))
  return year ++ '-' :: month ++ '-' :: day

/-- Fractions of a second are cut after nine digits and shown without zeros at the end. -/
def secondFraction : CharReader (List Char) := do
  expect '.'
  let digits ← takeWhile Char.isDigit
  if digits.isEmpty then failure
  let kept := ((digits.take 9).reverse.dropWhile (· == '0')).reverse
  return if kept.isEmpty then [] else '.' :: kept

def partialTime : CharReader (List Char) := do
  let hour ← fixedNumber 2 0 23
  expect ':'
  let minute ← fixedNumber 2 0 59
  expect ':'
  let second ← fixedNumber 2 0 60
  let fraction ← match ← char? with
    | some '.' => secondFraction
    | _ => pure []
  return hour ++ ':' :: minute ++ ':' :: second ++ fraction

/-- A distance from universal time; none at all counts as one to the east. -/
def offset : CharReader (List Char) := do
  match ← char? with
  | some 'Z' | some 'z' =>
    modify (·.drop 1)
    return ['Z']
  | some '+' | some '-' =>
    let negative ← sign
    let hour ← fixedNumber 2 0 23
    expect ':'
    let minute ← fixedNumber 2 0 59
    let zero := valueIn 10 (hour ++ minute) = 0
    return (if negative && !zero then '-' else '+') :: hour ++ ':' :: minute
  | _ => return []

/-- Whether a time of day comes next, as far as its first colon shows. -/
def timeAhead (cs : List Char) : Bool :=
  match cs with
  | a :: b :: ':' :: _ => a.isDigit && b.isDigit && valueIn 10 [a, b] ≤ 23
  | _ => false

/-- A date with or without a time of day. -/
def dateTime : CharReader (List Char) := do
  let date ← fullDate
  match ← get with
  | c :: rest =>
    if (c = 'T' ∨ c = 't' ∨ c = ' ') ∧ timeAhead rest then
      set rest
      return date ++ 'T' :: (← partialTime) ++ (← offset)
    else return date
  | [] => return date

def date : CharReader Item := do
  match ← get with
  | a :: b :: c :: d :: '-' :: _ =>
    if [a, b, c, d].all Char.isDigit then return .date (String.ofList (← dateTime)) else failure
  | cs => if timeAhead cs then return .date (String.ofList (← partialTime)) else failure

/-- A date or a number. What begins like a date has to be one. -/
def numeric : CharReader Item := do
  let cs ← get
  let dateAhead := match cs with
    | a :: b :: c :: d :: '-' :: _ => [a, b, c, d].all Char.isDigit
    | _ => timeAhead cs
  if dateAhead then date else either finiteFloat (either specialFloat integer)

/-- Entries that each have a key of their own; of dotted keys, the tables on the way have to come
from dotted keys. -/
def entriesOf (pairs : List (List String × Item)) : CharReader Entries :=
  let build := pairs.foldl (fun entries (pair : List String × Item) => do
    Entries.addAt pair.1.dropLast (pair.1.getLastD "") pair.2 (← entries)) (some [])
  match build with
  | some entries => return entries
  | none => failure

section

-- The reader of the items inside an item.
variable (inner : CharReader Item)

/-- The rest of an array, which is not longer than the given number. A comma may stand after the
last item. -/
def arrayRest : Nat → CharReader (List Item)
  | 0 => failure
  | n + 1 => do
    gap n
    if ← eat [']'] then return []
    else
      let item ← inner
      gap n
      if ← eat [','] then return item :: (← arrayRest n)
      else
        expect ']'
        return [item]

def keyValue : CharReader (List String × Item) := do
  let name ← key
  ws
  expect '='
  ws
  return (name, ← inner)

/-- The pairs of a table between braces, from one pair on. -/
def pairsRest : Nat → CharReader (List (List String × Item))
  | 0 => failure
  | n + 1 => do
    ws
    let pair ← keyValue inner
    ws
    if ← eat [','] then return pair :: (← pairsRest n)
    else
      expect '}'
      return [pair]

def inlineTable : CharReader Item := do
  ws
  if ← eat ['}'] then return .inlineTable []
  else return .inlineTable (← entriesOf (← pairsRest inner ((← get).length + 1)))

/-- An item, inside which items can be nested to the given depth. -/
def itemWith (depth : Nat) : CharReader Item := do
  match ← char? with
  | some '"' | some '\'' => return .string (← string)
  | some '[' =>
    modify (·.drop 1)
    if depth = 0 then failure else return .array (← arrayRest inner ((← get).length + 1))
  | some '{' =>
    modify (·.drop 1)
    if depth = 0 then failure else inlineTable inner
  | some 't' => if ← eat "true".toList then return .boolean true else failure
  | some 'f' => if ← eat "false".toList then return .boolean false else failure
  | some 'i' | some 'n' => specialFloat
  | some c => if c.isDigit || c == '+' || c == '-' then numeric else failure
  | none => failure

end

def itemWithin : Nat → CharReader Item
  | 0 => itemWith failure 0
  | depth + 1 => itemWith (itemWithin depth) (depth + 1)

def item : CharReader Item := itemWithin (maxDepth - 1)

/-- The document read so far, and the path of the table that entries go to. -/
structure Draft where
  entries : Entries := []
  path : List String := []

namespace Draft

/-- Adds an entry to the current table. -/
def add (draft : Draft) (name : List String) (value : Item) : Option Draft := do
  let entries ← Entries.within .outer (Entries.addAt name.dropLast (name.getLastD "") value)
    draft.path draft.entries
  return { draft with entries }

/-- Begins the table of a header. -/
def begin (draft : Draft) (path : List String) (several : Bool) : Option Draft := do
  let name := path.getLastD ""
  let start := if several then Entries.openTables name else Entries.openTable name
  return ⟨← Entries.within .outer start path.dropLast draft.entries, path⟩

end Draft

/-- The path of a header after its opening brackets. -/
def headerPath : CharReader (List String) := do
  ws
  let path ← key
  ws
  return path

def orFail (result : Option α) : CharReader α :=
  match result with
  | some a => return a
  | none => failure

/-- One line of a document. -/
def line (draft : Draft) : CharReader Draft := do
  match ← char? with
  | some '\n' | some '\r' =>
    newline
    return draft
  | some '#' =>
    lineEnd
    return draft
  | some '[' =>
    if ← eat ['[', '['] then
      let path ← headerPath
      expect ']'
      expect ']'
      lineEnd
      orFail (draft.begin path true)
    else
      expect '['
      let path ← headerPath
      expect ']'
      lineEnd
      orFail (draft.begin path false)
  | _ =>
    let (name, value) ← keyValue item
    lineEnd
    orFail (draft.add name value)

def lines (draft : Draft) : Nat → CharReader Draft
  | 0 => return draft
  | n + 1 => do
    ws
    if (← get).isEmpty then return draft
    else lines (← line draft) n

/-- The entries of a document. -/
def parse? (text : String) : Option Entries := do
  let cs := match text.toList with
    | c :: rest => if c.toNat = 0xFEFF then rest else c :: rest
    | [] => []
  let (draft, rest) ← lines {} (cs.length + 1) cs
  if rest.isEmpty then some draft.entries else none

end ArchiveScript.Toml
