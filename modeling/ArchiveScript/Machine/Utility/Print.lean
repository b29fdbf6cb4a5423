import ArchiveScript.Machine.Process

/-! # Printing

The utilities that print their arguments. Backslashes begin escapes in formats, and in what the
shell's own `echo` prints.
-/

namespace ArchiveScript.Utility

open Job

/-- The letters of escapes. -/
def escapeLetter? : Char → Option Char
  | 'a' => some (Char.ofNat 7)
  | 'b' => some (Char.ofNat 8)
  | 'f' => some (Char.ofNat 12)
  | 'n' => some '\n'
  | 'r' => some '\r'
  | 't' => some '\t'
  | 'v' => some (Char.ofNat 11)
  | '\\' => some '\\'
  | _ => none

def isOctal (c : Char) : Bool := '0' ≤ c && c ≤ '7'

/-- The byte of the octal digits at the beginning, of which there are `limit` at most. -/
def octal (limit : Nat) (cs : List Char) : Char × List Char :=
  let digits := (cs.take limit).takeWhile isOctal
  let value := digits.foldl (fun value c => 8 * value + (c.toNat - '0'.toNat)) 0
  (Char.ofNat (value % 256), cs.drop digits.length)

/-- What is printed of a text with escapes, and whether more may follow. After a backslash,
octal digits are led by a zero if `zero` says so. -/
def unescape (zero : Bool) : Nat → List Char → List Char × Bool
  | 0, _ => ([], true)
  | _, [] => ([], true)
  | fuel + 1, '\\' :: c :: rest =>
    let go (printed : List Char) (rest : List Char) :=
      let (more, goesOn) := unescape zero fuel rest
      (printed ++ more, goesOn)
    if c = 'c' then ([], false)
    else match escapeLetter? c with
      | some letter => go [letter] rest
      | none =>
        if zero && c = '0' then
          let (byte, rest) := octal 3 rest
          go [byte] rest
        else if !zero && isOctal c then
          let (byte, rest) := octal 3 (c :: rest)
          go [byte] rest
        else go ['\\', c] rest
  | fuel + 1, c :: rest =>
    let (more, goesOn) := unescape zero fuel rest
    (c :: more, goesOn)

/-- Prints the arguments with blanks between them and a new line at the end. -/
def echo (args : List Octets) : Job Nat := do
  let (args, ending) := match args with
    | "-n" :: args => (args, "")
    | args => (args, "\n")
  let text := (" ".intercalate args).toList
  let (printed, goesOn) := unescape true text.length text
  say (String.ofList printed ++ if goesOn then ending else "")
  return 0

/-- The same, without escapes. -/
def plainEcho (args : List Octets) : Job Nat := do
  match args with
  | "-n" :: args => say (" ".intercalate args)
  | args => say (" ".intercalate args ++ "\n")
  return 0

/-- A place of a format that an argument is printed at. -/
structure Conversion where
  left : Bool := false
  zeros : Bool := false
  plus : Bool := false
  width : Nat := 0
  precision : Option Nat := none
  kind : Char

namespace Conversion

/-- Fills up to the width. -/
def pad (conversion : Conversion) (cs : List Char) : List Char :=
  let filling := List.replicate (conversion.width - cs.length) ' '
  if conversion.left then cs ++ filling else filling ++ cs

/-- The digits at the beginning of an argument, after its sign. -/
def leadingDigits (arg : Octets) : List Char :=
  match arg.toList with
  | '-' :: cs | '+' :: cs => cs.takeWhile Char.isDigit
  | cs => cs.takeWhile Char.isDigit

/-- The number of an argument. A quote stands for the number of the character after it. -/
def number (arg : Octets) : Int :=
  let digits := (leadingDigits arg).foldl (fun n c => 10 * n + (c.toNat - '0'.toNat)) 0
  match arg.toList with
  | ['\'', c] | ['"', c] => c.toNat
  | '-' :: _ => -(digits : Int)
  | _ => digits

/-- What is wrong with an argument that has to be a number. Nothing counts as zero. -/
def complaint? (conversion : Conversion) (arg : Octets) : Option Octets :=
  let signs := match arg.toList with
    | '-' :: _ | '+' :: _ => 1
    | _ => 0
  let digits := (leadingDigits arg).length
  if ['s', 'c', 'b'].contains conversion.kind || arg = "" then none
  else match arg.toList with
    | '\'' :: _ | '"' :: _ => none
    | cs =>
      if digits = 0 then some (arg ++ ": expected numeric value")
      else if signs + digits < cs.length then some (arg ++ ": not completely converted")
      else none

def signed (conversion : Conversion) (n : Int) : List Char :=
  let sign := if n < 0 then ['-'] else if conversion.plus then ['+'] else []
  let digits := Nat.toDigits 10 n.natAbs
  let least := match conversion.precision with
    | some precision => precision
    | none => if conversion.zeros && !conversion.left then conversion.width - sign.length else 0
  sign ++ List.replicate (least - digits.length) '0' ++ digits

/-- The digits of a number in some base; negative numbers count from the end of 64 bits. -/
def unsigned (conversion : Conversion) (base : Nat) (n : Int) : List Char :=
  let digits := Nat.toDigits base (n % (Nat.pow 2 64 : Nat)).toNat
  let least := match conversion.precision with
    | some precision => precision
    | none => if conversion.zeros && !conversion.left then conversion.width else 0
  List.replicate (least - digits.length) '0' ++ digits

/-- What is printed of an argument. -/
def print (conversion : Conversion) (arg : Octets) : List Char × Bool :=
  let cut (cs : List Char) := match conversion.precision with
    | some precision => cs.take precision
    | none => cs
  match conversion.kind with
  | 's' => (conversion.pad (cut arg.toList), true)
  | 'c' => (conversion.pad (arg.toList.take 1), true)
  | 'b' =>
    let (cs, goesOn) := unescape true arg.length arg.toList
    (conversion.pad (cut cs), goesOn)
  | 'd' | 'i' => (conversion.pad (conversion.signed (number arg)), true)
  | 'u' => (conversion.pad (conversion.unsigned 10 (number arg)), true)
  | 'o' => (conversion.pad (conversion.unsigned 8 (number arg)), true)
  | 'x' => (conversion.pad (conversion.unsigned 16 (number arg)), true)
  | 'X' => (conversion.pad ((conversion.unsigned 16 (number arg)).map Char.toUpper), true)
  | _ => ([], true)

/-- Reads a conversion after its percent sign. -/
def read? (cs : List Char) : Option (Conversion × List Char) :=
  let isFlag (c : Char) := c == '-' || c == '0' || c == '+' || c == ' ' || c == '#'
  let natural (cs : List Char) : Nat := cs.foldl (fun n c => 10 * n + (c.toNat - '0'.toNat)) 0
  let flags := cs.takeWhile isFlag
  let cs := cs.dropWhile isFlag
  let width := cs.takeWhile Char.isDigit
  let cs := cs.dropWhile Char.isDigit
  let (precision, cs) := match cs with
    | '.' :: cs => (some (natural (cs.takeWhile Char.isDigit)), cs.dropWhile Char.isDigit)
    | cs => (none, cs)
  match cs with
  | kind :: cs =>
    if ['s', 'c', 'b', 'd', 'i', 'u', 'o', 'x', 'X'].contains kind then
      some ({ left := flags.contains '-', zeros := flags.contains '0', plus := flags.contains '+',
              width := natural width, precision, kind }, cs)
    else none
  | [] => none

end Conversion

/-- What was printed of a format. -/
structure Printed where
  text : List Char
  /-- The arguments that are left. -/
  args : List Octets
  goesOn : Bool := true
  valid : Bool := true
  complaints : List Octets := []

/-- Goes through a format once. Where no arguments are left, empty ones are printed. -/
def printOnce : Nat → List Char → List Octets → Printed
  | 0, _, args => { text := [], args }
  | _, [], args => { text := [], args }
  | fuel + 1, '%' :: '%' :: rest, args =>
    let more := printOnce fuel rest args
    { more with text := '%' :: more.text }
  | fuel + 1, '%' :: rest, args =>
    match Conversion.read? rest with
    | none =>
      let sign := String.ofList ('%' :: rest.takeWhile (· ≠ ' '))
      { text := [], args := [], goesOn := false, valid := false,
        complaints := [sign ++ ": invalid directive"] }
    | some (conversion, rest) =>
      let (text, goesOn) := conversion.print (args.headD "")
      let complaints := (conversion.complaint? (args.headD "")).toList
      if goesOn then
        let more := printOnce fuel rest args.tail
        { more with text := text ++ more.text, complaints := complaints ++ more.complaints }
      else { text, args := [], goesOn := false, complaints }
  | fuel + 1, '\\' :: c :: rest, args =>
    match escapeLetter? c with
    | some letter =>
      let more := printOnce fuel rest args
      { more with text := letter :: more.text }
    | none =>
      if isOctal c then
        let (byte, rest) := octal 3 (c :: rest)
        let more := printOnce fuel rest args
        { more with text := byte :: more.text }
      else if c = '"' then
        let more := printOnce fuel rest args
        { more with text := c :: more.text }
      else
        let more := printOnce fuel rest args
        { more with text := '\\' :: c :: more.text }
  | fuel + 1, c :: rest, args =>
    let more := printOnce fuel rest args
    { more with text := c :: more.text }

/-- Goes through a format as long as it takes up arguments that are left. -/
def printAll (format : List Char) : Nat → List Octets → Printed
  | 0, args => printOnce format.length format args
  | fuel + 1, args =>
    let printed := printOnce format.length format args
    if printed.goesOn && !printed.args.isEmpty && printed.args.length < args.length then
      let more := printAll format fuel printed.args
      { more with
        text := printed.text ++ more.text
        complaints := printed.complaints ++ more.complaints }
    else printed

def printf (args : List Octets) : Job Nat := do
  let args := if args.head? = some "--" then args.tail else args
  match args with
  | [] =>
    complain "printf: usage: printf format [arg ...]\n"
    return 2
  | format :: args =>
    let printed := printAll format.toList args.length args
    say (String.ofList printed.text)
    for complaint in printed.complaints do complain ("printf: " ++ complaint ++ "\n")
    return if !printed.valid then 2 else if printed.complaints.isEmpty then 0 else 1

end ArchiveScript.Utility
