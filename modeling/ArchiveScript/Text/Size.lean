/-! # Sizes in bytes

Offsets into a script count the bytes of its UTF-8 form. Texts are handled as lists of
characters, and their sizes as sums over the characters.
-/

namespace ArchiveScript.Text

/-- The number of bytes of the UTF-8 form of the characters. -/
def bytes : List Char → Nat
  | [] => 0
  | c :: cs => c.utf8Size + bytes cs

@[simp]
theorem bytes_nil : bytes [] = 0 := rfl

@[simp]
theorem bytes_cons (c : Char) (cs : List Char) : bytes (c :: cs) = c.utf8Size + bytes cs := rfl

@[simp]
theorem bytes_append (cs ds : List Char) : bytes (cs ++ ds) = bytes cs + bytes ds := by
  induction cs with
  | nil => simp
  | cons c cs ih => simp [ih, Nat.add_assoc]

theorem length_le_bytes (cs : List Char) : cs.length ≤ bytes cs := by
  induction cs with
  | nil => simp
  | cons c cs ih =>
    have := c.utf8Size_pos
    simp only [List.length_cons, bytes_cons]
    omega

/-- What follows the first `n` bytes, if a character starts there. -/
def dropBytes : Nat → List Char → Option (List Char)
  | 0, cs => some cs
  | _ + 1, [] => none
  | n + 1, c :: cs =>
    if c.utf8Size ≤ n + 1 then dropBytes (n + 1 - c.utf8Size) cs else none

/-- The first `n` bytes, if a character ends there. -/
def takeBytes : Nat → List Char → Option (List Char)
  | 0, _ => some []
  | _ + 1, [] => none
  | n + 1, c :: cs =>
    if c.utf8Size ≤ n + 1 then (takeBytes (n + 1 - c.utf8Size) cs).map (c :: ·) else none

theorem dropBytes_append (text more : List Char) :
    dropBytes (bytes text) (text ++ more) = some more := by
  induction text with
  | nil => rw [bytes_nil, List.nil_append, dropBytes]
  | cons c text ih =>
    obtain ⟨size, hsize⟩ := Nat.exists_eq_succ_of_ne_zero (Nat.ne_of_gt c.utf8Size_pos)
    have hall : bytes (c :: text) = (size + bytes text) + 1 := by
      rw [bytes_cons]
      omega
    have hrest : size + bytes text + 1 - c.utf8Size = bytes text := by omega
    rw [hall, List.cons_append, dropBytes, if_pos (by omega), hrest, ih]

theorem takeBytes_append (text more : List Char) :
    takeBytes (bytes text) (text ++ more) = some text := by
  induction text with
  | nil => rw [bytes_nil, takeBytes]
  | cons c text ih =>
    obtain ⟨size, hsize⟩ := Nat.exists_eq_succ_of_ne_zero (Nat.ne_of_gt c.utf8Size_pos)
    have hall : bytes (c :: text) = (size + bytes text) + 1 := by
      rw [bytes_cons]
      omega
    have hrest : size + bytes text + 1 - c.utf8Size = bytes text := by omega
    rw [hall, List.cons_append, takeBytes, if_pos (by omega), hrest, ih, Option.map_some]

end ArchiveScript.Text
