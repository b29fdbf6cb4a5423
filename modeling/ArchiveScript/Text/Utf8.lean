/-! # UTF-8

Reading bytes as a text. Bytes that are no text can be refused or replaced: the longest beginning
of a character that stands alone becomes one replacement character, as does any byte that begins
none.
-/

namespace ArchiveScript.Text

def isContinuation (b : UInt8) : Bool := 0x80 ≤ b && b ≤ 0xBF

/-- Whether `b` can come second in a character that begins with `a`. Characters are written as
short as possible, are none of the surrogates and do not go beyond the last one. -/
def isSecond (a b : UInt8) : Bool :=
  if a = 0xE0 then 0xA0 ≤ b && b ≤ 0xBF
  else if a = 0xED then 0x80 ≤ b && b ≤ 0x9F
  else if a = 0xF0 then 0x90 ≤ b && b ≤ 0xBF
  else if a = 0xF4 then 0x80 ≤ b && b ≤ 0x8F
  else isContinuation b

/-- The number of bytes of a character that begins with `a`, or zero if none does. -/
def charWidth (a : UInt8) : Nat :=
  if a < 0x80 then 1
  else if a < 0xC2 then 0
  else if a < 0xE0 then 2
  else if a < 0xF0 then 3
  else if a < 0xF5 then 4
  else 0

/-- The number of bytes after `a` that continue a character that begins with it. -/
def continued (a : UInt8) (rest : List UInt8) : Nat :=
  match rest.take (charWidth a - 1) with
  | [] => 0
  | b :: more => if isSecond a b then 1 + (more.takeWhile isContinuation).length else 0

/-- The character that is made up of a first byte and the bytes after it. -/
def assemble (a : UInt8) (rest : List UInt8) : Char :=
  let high :=
    match charWidth a with
    | 1 => a.toNat
    | 2 => a.toNat % 0x20
    | 3 => a.toNat % 0x10
    | _ => a.toNat % 0x08
  Char.ofNat (rest.foldl (fun value b => value * 0x40 + b.toNat % 0x40) high)

/-- The characters of a text, with nothing in place of what is none. -/
def charsOf : Nat → List UInt8 → List (Option Char)
  | 0, _ => []
  | _, [] => []
  | fuel + 1, a :: rest =>
    let more := continued a rest
    let char := if more + 1 = charWidth a then some (assemble a (rest.take more)) else none
    char :: charsOf fuel (rest.drop more)

/-- The text that the bytes are the UTF-8 form of. -/
def ofBytes? (bytes : List UInt8) : Option String :=
  ((charsOf bytes.length bytes).mapM id).map String.ofList

/-- The character that stands for bytes that are none. -/
def replacement : Char := Char.ofNat 0xFFFD

/-- The text of the bytes, with replacement characters where they are none. -/
def ofBytes (bytes : List UInt8) : String :=
  String.ofList ((charsOf bytes.length bytes).map (·.getD replacement))

/-- The UTF-8 form of a text. -/
def toBytes (s : String) : List UInt8 := s.toUTF8.toList

end ArchiveScript.Text
