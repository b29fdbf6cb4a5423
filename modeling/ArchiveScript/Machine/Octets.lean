import ArchiveScript.Text.Utf8

/-! # Octets

Files, arguments and outputs are strings of bytes, which need not be texts.
-/

namespace ArchiveScript

/-- A string of bytes: each character stands for the byte with its number. -/
abbrev Octets := String

namespace Octets

def ofBytes (bytes : List UInt8) : Octets :=
  String.ofList (bytes.map fun b => Char.ofNat b.toNat)

def bytes (octets : Octets) : List UInt8 := octets.toList.map fun c => c.toNat.toUInt8

/-- The bytes of a text. -/
def ofText (s : String) : Octets := ofBytes (Text.toBytes s)

/-- The text that the bytes make up. -/
def text? (octets : Octets) : Option String := Text.ofBytes? octets.bytes

/-- The text of the bytes, with replacement characters where they are none. -/
def text (octets : Octets) : String := Text.ofBytes octets.bytes

end Octets

end ArchiveScript
