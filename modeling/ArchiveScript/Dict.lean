/-! # Dictionaries

A dictionary keeps its entries in the ascending order of their keys, because that is the order in
which they are shown.
-/

namespace ArchiveScript

/-- Entries in the order of their keys. -/
structure Dict (α : Type) where
  entries : List (String × α)
  deriving DecidableEq, Repr

namespace Dict

variable {α : Type}

def empty : Dict α := ⟨[]⟩

def lookup (key : String) : List (String × α) → Option α
  | [] => none
  | (k, a) :: rest => if k = key then some a else lookup key rest

def insertInto (key : String) (value : α) : List (String × α) → List (String × α)
  | [] => [(key, value)]
  | (k, a) :: rest =>
    if key = k then (key, value) :: rest
    else if key < k then (key, value) :: (k, a) :: rest
    else (k, a) :: insertInto key value rest

def get? (dict : Dict α) (key : String) : Option α := lookup key dict.entries

/-- Sets the value of a key. -/
def insert (dict : Dict α) (key : String) (value : α) : Dict α :=
  ⟨insertInto key value dict.entries⟩

def erase (dict : Dict α) (key : String) : Dict α :=
  ⟨dict.entries.filter fun entry => entry.1 != key⟩

/-- Of the entries with one key the last one counts. -/
def ofList (entries : List (String × α)) : Dict α :=
  entries.foldl (fun dict entry => dict.insert entry.1 entry.2) empty

@[simp]
theorem get?_empty (key : String) : (empty : Dict α).get? key = none := rfl

theorem lookup_insertInto (key k : String) (value : α) (entries : List (String × α)) :
    lookup k (insertInto key value entries) = if k = key then some value else lookup k entries := by
  induction entries with
  | nil =>
    by_cases h : k = key
    · simp [insertInto, lookup, h]
    · simp [insertInto, lookup, h, Ne.symm h]
  | cons entry rest ih =>
    obtain ⟨k', a⟩ := entry
    simp only [insertInto]
    split
    · rename_i h
      subst h
      by_cases h' : k = key
      · simp [lookup, h']
      · simp [lookup, h', Ne.symm h']
    · rename_i h
      split
      · by_cases h' : k = key
        · simp [lookup, h']
        · simp [lookup, h', Ne.symm h']
      · by_cases h' : k' = k
        · subst h'
          simp [lookup, Ne.symm h]
        · simp [lookup, h', ih]

@[simp]
theorem get?_insert (dict : Dict α) (key k : String) (value : α) :
    (dict.insert key value).get? k = if k = key then some value else dict.get? k :=
  lookup_insertInto key k value dict.entries

@[simp]
theorem get?_erase (dict : Dict α) (key k : String) :
    (dict.erase key).get? k = if k = key then none else dict.get? k := by
  obtain ⟨entries⟩ := dict
  simp only [get?, erase]
  induction entries with
  | nil => simp [lookup]
  | cons entry rest ih =>
    obtain ⟨k', a⟩ := entry
    by_cases h : k' = key
    · subst h
      by_cases h' : k = k'
      · subst h'
        simp_all
      · simp_all [lookup, Ne.symm h']
    · by_cases h' : k' = k
      · subst h'
        simp [lookup, h]
      · simp_all [lookup]

end Dict

end ArchiveScript
