import ArchiveScript.Script.Scan

/-! # Expressions on a line

Strings, integers and variables, with the operations that are put after them by a point. A
string may hold expressions, so the reader of an expression is built around a reader of the
expressions inside it.
-/

namespace ArchiveScript.Expression

open Builder (fail leaf spanning spans)

variable {m : Type → Type} {ν : Type} [Builder m ν]

/-- The characters that mean something after a backslash, the unicode escape apart. -/
def isEscape (c : Char) : Bool := "ntrbf0\\\"'$".toList.contains c

def isHexDigit (c : Char) : Bool :=
  c.isDigit || ('a' ≤ c && c ≤ 'f') || ('A' ≤ c && c ≤ 'F')

/-- An escape sequence; the scan is at its backslash. -/
def escape (s : Scan) : m (ν × Scan) :=
  match (s.skip 1).rest with
  | 'u' :: _ =>
    let afterU := s.skip 2
    match afterU.eat? ['{'] with
    | none => fail (.expectedAfter "'\x7b'" "'\\u'") afterU.point
    | some digits =>
      let rest := digits.skipWhile isHexDigit
      let count := digits.rest.length - rest.rest.length
      let closed := if count = 0 ∨ 6 < count then none else rest.eat? ['}']
      match closed with
      | some after =>
        return (← leaf .escapeSequence s.pos (s.rest.take (count + 4)), after)
      | none => fail .unicodeEscape (.between s.pos rest.pos)
  | c :: _ =>
    if isEscape c then return (← leaf .escapeSequence s.pos (s.rest.take 2), s.skip 2)
    else fail .unknownEscape (.between s.pos (min (s.pos + 2) s.limit))
  | [] => fail .unknownEscape (.between s.pos (min (s.pos + 2) s.limit))

/-- The characters before the next one that ends a literal piece of a string. -/
def stringRun : List Char → List Char
  | '"' :: _ => []
  | '\\' :: _ => []
  | '$' :: '{' :: _ => []
  | c :: cs => c :: stringRun cs
  | [] => []

section

-- The reader of the expressions inside an expression.
variable (inner : Scan → m (ν × Scan))

/-- An interpolation, whose opening is `opener` characters long. -/
def interpolation (kind : Kind) (opener : Nat) (s : Scan) : m (ν × Scan) := do
  let (value, rest) ← inner (s.skip opener)
  let rest := rest.skipBlanks
  match rest.eat? ['}'] with
  | some after => return (← spanning kind s.pos after.pos [(none, value)], after)
  | none => fail .openInterpolation rest.point

/-- The pieces of a string up to its closing quote. The string began at `opened`. -/
def stringPieces (opened : Nat) : Nat → Scan → m (List (Option Field × ν) × Scan)
  | 0, s => fail .unterminatedString (.between opened s.limit)
  | n + 1, s =>
    match s.rest with
    | [] => fail .unterminatedString (.between opened s.limit)
    | '"' :: _ => return ([], s.skip 1)
    | '\\' :: _ => do
      let (piece, s) ← escape s
      let (pieces, s) ← stringPieces opened n s
      return ((none, piece) :: pieces, s)
    | '$' :: '{' :: _ => do
      let (piece, s) ← interpolation inner .interpolation 2 s
      let (pieces, s) ← stringPieces opened n s
      return ((none, piece) :: pieces, s)
    | _ => do
      let run := stringRun s.rest
      let piece ← leaf .stringContent s.pos run
      let (pieces, rest) ← stringPieces opened n (s.skip run.length)
      return ((none, piece) :: pieces, rest)

/-- A string; the scan is at its opening quote. -/
def string (s : Scan) : m (ν × Scan) := do
  let (pieces, rest) ← stringPieces inner s.pos s.rest.length (s.skip 1)
  return (← spanning .string s.pos rest.pos pieces, rest)

/-- An integer: digits after an optional dash. -/
def integer (s : Scan) : m (ν × Scan) :=
  let digits := if s.rest.head? = some '-' then s.skip 1 else s
  let rest := digits.skipWhile Char.isDigit
  if rest.rest.length = digits.rest.length then fail (.expected "digits") rest.point
  else return (← leaf .integer s.pos (s.rest.take (s.rest.length - rest.rest.length)), rest)

/-- An expression without operations after it. -/
def primary (s : Scan) : m (ν × Scan) :=
  match s.rest with
  | '"' :: _ => string inner s
  | c :: _ =>
    if c = '-' ∨ c.isDigit then integer s
    else match s.name? with
      | some (name, rest) => do
        let name ← leaf .identifier s.pos name
        return (← spanning .variableInstance s.pos rest.pos [(none, name)], rest)
      | none => fail (.expected "a string, an integer or a variable") s.restSpan
  | [] => fail (.expected "a string, an integer or a variable") s.restSpan

end

/-- The operations after an expression that began at `start`. -/
def operations (start : Nat) : Nat → ν → Scan → m (ν × Scan)
  | 0, left, s => return (left, s)
  | n + 1, left, s =>
    match s.rest with
    | '.' :: _ =>
      let atName := s.skip 1
      match atName.name? with
      | some (name, rest) => do
        let right ← leaf .identifier atName.pos name
        let both ← spanning .dotExpression start rest.pos
          [(some .left, left), (some .right, right)]
        operations start n both rest
      | none => return (left, s)
    | _ => return (left, s)

/-- An expression around the expressions that `inner` reads. -/
def basicWith (inner : Scan → m (ν × Scan)) (s : Scan) :
    m (ν × Scan) := do
  let s := s.skipBlanks
  let (left, rest) ← primary inner s
  operations s.pos rest.rest.length left rest

/-- An expression of at most `depth` expressions one inside the other. -/
def basicWithin : Nat → Scan → m (ν × Scan)
  | 0, s => fail (.expected "a string, an integer or a variable") s.skipBlanks.restSpan
  | depth + 1, s => basicWith (basicWithin depth) s

/-- An expression. Each one inside another follows a quote, so the characters that are left
bound the depth. -/
def basic (s : Scan) : m (ν × Scan) := basicWithin (s.rest.length + 1) s

/-- The signs of comparisons; a sign stands before its own beginnings. -/
def comparisonSigns : List (List Char) :=
  [['=', '='], ['!', '='], ['<', '='], ['>', '='], ['<'], ['>']]

/-- Two expressions with a sign of comparison between them. -/
def comparison (s : Scan) : m (ν × Scan) := do
  let (left, s) ← basic s
  let s := s.skipBlanks
  match comparisonSigns.find? (·.isPrefixOf s.rest) with
  | none => fail (.expected "a comparison operator") s.point
  | some sign =>
    let operator ← leaf .comparisonOperator s.pos sign
    let (right, rest) ← basic (s.skip sign.length)
    let start := (← spans) left |>.start
    return (← spanning .comparison start start
      [(some .left, left), (some .operator, operator), (some .right, right)], rest)

end ArchiveScript.Expression
