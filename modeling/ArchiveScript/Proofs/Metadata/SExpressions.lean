import Mathlib
import ArchiveScript.Metadata.Outline
import ArchiveScript.Proofs.Text.Quoting
import ArchiveScript.Script.Scan

/-! # Reading outlines back

An outline is determined by its s-expression when its names are names. Nothing is assumed of what
its entries hold, nor of which characters are written by their number.
-/

namespace ArchiveScript

def IsIdentifier (name : String) : Prop :=
  name.toList.head?.any isNameStart = true ∧ ∀ c ∈ name.toList, isNamePart c = true

theorem IsIdentifier.toList_ne {name : String} (h : IsIdentifier name) :
    ∃ first rest, name.toList = first :: rest ∧ first ≠ '"' ∧ ' ' ∉ name.toList := by
  obtain ⟨hhead, hall⟩ := h
  cases hname : name.toList with
  | nil => simp [hname] at hhead
  | cons first rest =>
    refine ⟨first, rest, rfl, ?_, ?_⟩
    · rintro rfl
      simp [hname] at hhead
      revert hhead
      decide
    · intro hspace
      have := hall ' ' (hname ▸ hspace)
      revert this
      decide

namespace Outline

variable {κ : Type}

inductive Named : Outline κ → Prop
  | mk (kind : κ) (name data : String) (children : List (Outline κ))
      (hn : name = "" ∨ IsIdentifier name) (hc : ∀ child ∈ children, child.Named) :
      Named (mk kind name data children)

mutual

/-- The s-expression when the hidden characters are written by their number. -/
def written [EntryKind κ] (hidden : Char → Bool) : Outline κ → String
  | mk kind name data children =>
    "(" ++ EntryKind.title kind ++ (if name.isEmpty then "" else " " ++ name) ++ " " ++
      Text.quotedBut hidden data ++ writtens hidden children ++ ")"

def writtens [EntryKind κ] (hidden : Char → Bool) : List (Outline κ) → String
  | [] => ""
  | child :: rest => " " ++ child.written hidden ++ writtens hidden rest

end

mutual

theorem written_isPrintable [EntryKind κ] (outline : Outline κ) :
    outline.written (fun c => !Text.isPrintable c) = outline.sexp := by
  cases outline with
  | mk kind name data children =>
    rw [written, sexp, Text.quotedBut_isPrintable, writtens_isPrintable children]

theorem writtens_isPrintable [EntryKind κ] (outlines : List (Outline κ)) :
    writtens (fun c => !Text.isPrintable c) outlines = sexps outlines := by
  cases outlines with
  | nil => rfl
  | cons child rest =>
    rw [writtens, sexps, written_isPrintable child, writtens_isPrintable rest]

end

/-! ### Titles and names -/

/-- The titles of the kinds are words, and no two kinds share one. -/
structure PlainTitles (κ : Type) [EntryKind κ] : Prop where
  noSpace : ∀ kind : κ, ' ' ∉ (EntryKind.title kind).toList
  injective : Function.Injective fun kind : κ => EntryKind.title kind

theorem plainTitles_archive : PlainTitles ArchiveKind where
  noSpace kind := by cases kind <;> decide
  injective := by
    intro first second h
    revert h
    cases first <;> cases second <;> decide

theorem plainTitles_command : PlainTitles CommandKind where
  noSpace kind := by cases kind <;> decide
  injective := by
    intro first second h
    revert h
    cases first <;> cases second <;> decide

def nameText (name : String) : List Char :=
  if name.isEmpty then [] else name.toList ++ [' ']

theorem nameText_empty : nameText "" = [] := rfl

theorem nameText_identifier {name : String} (h : IsIdentifier name) :
    nameText name = name.toList ++ [' '] := by
  obtain ⟨first, rest, hname, -⟩ := h.toList_ne
  have hempty : name.isEmpty = false := by
    rw [← Bool.not_eq_true, String.isEmpty_iff]
    rintro rfl
    cases hname
  rw [nameText, hempty]
  rfl

section

variable {hidden : Char → Bool}

/-- A quote follows where a name is missing, and no name starts with one. -/
theorem nameText_append_inj {name other data datum : String} {x y : List Char}
    (hn : name = "" ∨ IsIdentifier name) (ho : other = "" ∨ IsIdentifier other)
    (h : nameText name ++ ((Text.quotedBut hidden data).toList ++ x) =
      nameText other ++ ((Text.quotedBut hidden datum).toList ++ y)) :
    name = other ∧ data = datum ∧ x = y := by
  rcases hn with rfl | hn <;> rcases ho with rfl | ho
  · rw [nameText_empty, List.nil_append, List.nil_append] at h
    exact ⟨rfl, Text.quotedBut_append_inj h⟩
  · obtain ⟨first, rest, hother, hquote, -⟩ := ho.toList_ne
    rw [nameText_identifier ho, hother] at h
    simp [nameText_empty, Text.quotedBut] at h
    exact absurd h.1.symm hquote
  · obtain ⟨first, rest, hname, hquote, -⟩ := hn.toList_ne
    rw [nameText_identifier hn, hname] at h
    simp [nameText_empty, Text.quotedBut] at h
    exact absurd h.1 hquote
  · rw [nameText_identifier hn, nameText_identifier ho] at h
    simp only [List.append_assoc, List.singleton_append] at h
    obtain ⟨-, -, -, -, hspace⟩ := hn.toList_ne
    obtain ⟨-, -, -, -, hspace'⟩ := ho.toList_ne
    obtain ⟨hnames, hrest⟩ := Text.append_cons_inj hspace hspace' h
    exact ⟨String.toList_inj.1 hnames, Text.quotedBut_append_inj hrest⟩

/-! ### Trees -/

theorem toList_written [EntryKind κ] (kind : κ) (name data : String)
    (children : List (Outline κ)) (x : List Char) :
    ((mk kind name data children).written hidden).toList ++ x =
      '(' :: ((EntryKind.title kind).toList ++ ' ' :: (nameText name ++
        ((Text.quotedBut hidden data).toList ++
          ((writtens hidden children).toList ++ ')' :: x)))) := by
  cases hn : name.isEmpty <;> simp [written, nameText, hn]

theorem toList_writtens_nil [EntryKind κ] (x : List Char) :
    (writtens hidden ([] : List (Outline κ))).toList ++ x = x := by
  simp [writtens]

theorem toList_writtens_cons [EntryKind κ] (child : Outline κ) (rest : List (Outline κ))
    (x : List Char) : (writtens hidden (child :: rest)).toList ++ x =
      ' ' :: ((child.written hidden).toList ++ ((writtens hidden rest).toList ++ x)) := by
  simp [writtens]

mutual

/-- An s-expression says what the outline is and where it ends. -/
theorem written_append_inj [EntryKind κ] (ht : PlainTitles κ) {first second : Outline κ}
    {x y : List Char} (hf : first.Named) (hs : second.Named)
    (h : (first.written hidden).toList ++ x = (second.written hidden).toList ++ y) :
    first = second ∧ x = y := by
  obtain ⟨kind, name, data, children⟩ := first
  obtain ⟨kind', name', data', children'⟩ := second
  obtain ⟨_, _, _, _, hn, hc⟩ := hf
  obtain ⟨_, _, _, _, hn', hc'⟩ := hs
  rw [toList_written, toList_written] at h
  obtain ⟨htitle, hbody⟩ :=
    Text.append_cons_inj (ht.noSpace _) (ht.noSpace _) (List.cons.inj h).2
  obtain ⟨rfl, rfl, hchildren⟩ := nameText_append_inj hn hn' hbody
  obtain ⟨rfl, hrest⟩ := writtens_append_inj ht hc hc' hchildren
  rw [ht.injective (String.toList_inj.1 htitle)]
  exact ⟨rfl, hrest⟩

theorem writtens_append_inj [EntryKind κ] (ht : PlainTitles κ) {first second : List (Outline κ)}
    {x y : List Char} (hf : ∀ child ∈ first, child.Named) (hs : ∀ child ∈ second, child.Named)
    (h : (writtens hidden first).toList ++ ')' :: x =
      (writtens hidden second).toList ++ ')' :: y) : first = second ∧ x = y := by
  cases first with
  | nil =>
    cases second with
    | nil =>
      rw [toList_writtens_nil, toList_writtens_nil] at h
      exact ⟨rfl, (List.cons.inj h).2⟩
    | cons child rest =>
      rw [toList_writtens_nil, toList_writtens_cons] at h
      exact absurd (List.cons.inj h).1 (by decide)
  | cons child rest =>
    cases second with
    | nil =>
      rw [toList_writtens_cons, toList_writtens_nil] at h
      exact absurd (List.cons.inj h).1 (by decide)
    | cons child' rest' =>
      rw [toList_writtens_cons, toList_writtens_cons] at h
      have hhere := List.forall_mem_cons.1 hf
      have hthere := List.forall_mem_cons.1 hs
      obtain ⟨rfl, hrest⟩ := written_append_inj ht hhere.1 hthere.1 (List.cons.inj h).2
      obtain ⟨rfl, hend⟩ := writtens_append_inj ht hhere.2 hthere.2 hrest
      exact ⟨rfl, hend⟩

end

theorem title_eq_of_written {ι : Type} [EntryKind κ] [EntryKind ι] (hκ : PlainTitles κ)
    (hι : PlainTitles ι) {first : Outline κ} {second : Outline ι}
    (h : first.written hidden = second.written hidden) :
    EntryKind.title first.kind = EntryKind.title second.kind := by
  obtain ⟨kind, name, data, children⟩ := first
  obtain ⟨kind', name', data', children'⟩ := second
  have hchars := congrArg (fun text => text.toList ++ []) h
  simp only [toList_written] at hchars
  exact String.toList_inj.1
    (Text.append_cons_inj (hκ.noSpace _) (hι.noSpace _) (List.cons.inj hchars).2).1

end

/-- No two outlines have the same text. -/
structure Unambiguous (text : ∀ {κ : Type} [EntryKind κ], Outline κ → String) : Prop where
  archive : ∀ first second : Outline ArchiveKind, first.Named → second.Named →
    text first = text second → first = second
  command : ∀ first second : Outline CommandKind, first.Named → second.Named →
    text first = text second → first = second
  apart : ∀ (first : Outline ArchiveKind) (second : Outline CommandKind),
    text first ≠ text second

theorem written_inj [EntryKind κ] (ht : PlainTitles κ) {hidden : Char → Bool}
    {first second : Outline κ} (hf : first.Named) (hs : second.Named)
    (h : first.written hidden = second.written hidden) : first = second :=
  (written_append_inj (x := []) (y := []) ht hf hs (by rw [h])).1

theorem written_unambiguous (hidden : Char → Bool) : Unambiguous (written hidden) where
  archive _ _ hf hs h := written_inj plainTitles_archive hf hs h
  command _ _ hf hs h := written_inj plainTitles_command hf hs h
  apart first second h := by
    have htitle := title_eq_of_written plainTitles_archive plainTitles_command h
    revert htitle
    cases first.kind <;> cases second.kind <;> decide

/-- S-expressions of outlines tell them apart, whichever characters are written by their number. -/
theorem sexp_unambiguous : Unambiguous sexp ∧ ∀ hidden, Unambiguous (written hidden) := by
  have hprintable := written_unambiguous (fun c => !Text.isPrintable c)
  refine ⟨⟨?archive, ?command, ?apart⟩, written_unambiguous⟩
  case archive =>
    intro first second hf hs h
    exact hprintable.archive first second hf hs (by rwa [written_isPrintable, written_isPrintable])
  case command =>
    intro first second hf hs h
    exact hprintable.command first second hf hs (by rwa [written_isPrintable, written_isPrintable])
  case apart =>
    intro first second h
    exact hprintable.apart first second (by rwa [written_isPrintable, written_isPrintable])

theorem leaf_named (kind : κ) {name data : String} (h : name = "" ∨ IsIdentifier name) :
    (leaf kind name data).Named :=
  .mk kind name data [] h nofun

/-- A name is not taken for the beginning of what the entry holds, nor an entry below another one
for one behind it. -/
theorem sexp_unambiguous_nested :
    let column : Outline ArchiveKind := leaf .column "a" "b"
    let inside : Outline ArchiveKind := .mk .schema "s" "" [.mk .table "" "t" [column]]
    let behind : Outline ArchiveKind := .mk .schema "s" "" [leaf .table "" "t", column]
    let unnamed : Outline ArchiveKind := .mk .schema "s" "" [.mk .table "t" "" [column]]
    inside.sexp ≠ behind.sexp ∧ inside.sexp ≠ unnamed.sexp := by
  intro column inside behind unnamed
  have hword (c : Char) (h : isNameStart c = true) : IsIdentifier (String.singleton c) := by
    have hpart : isNamePart c = true := by
      rw [isNameStart, Bool.or_eq_true] at h
      rw [isNamePart, Char.isAlphanum, Bool.or_eq_true, Bool.or_eq_true]
      exact h.imp_left .inl
    exact ⟨by simpa using h, by simpa using hpart⟩
  have hcolumn : column.Named := leaf_named _ (.inr (hword 'a' rfl))
  have hschema {children : List (Outline ArchiveKind)} (h : ∀ child ∈ children, child.Named) :
      (mk ArchiveKind.schema "s" "" children).Named :=
    .mk _ _ _ _ (.inr (hword 's' rfl)) h
  have htable {name data : String} (h : name = "" ∨ IsIdentifier name) :
      (mk ArchiveKind.table name data [column]).Named :=
    .mk _ _ _ _ h (List.forall_mem_singleton.2 hcolumn)
  have hinside : inside.Named := hschema (List.forall_mem_singleton.2 (htable (.inl rfl)))
  constructor
  · intro h
    have hbehind : behind.Named := hschema
      (List.forall_mem_cons.2 ⟨leaf_named _ (.inl rfl), List.forall_mem_singleton.2 hcolumn⟩)
    have heq := sexp_unambiguous.1.archive _ _ hinside hbehind h
    simp [inside, behind] at heq
  · intro h
    have hunnamed : unnamed.Named :=
      hschema (List.forall_mem_singleton.2 (htable (.inr (hword 't' rfl))))
    have heq := sexp_unambiguous.1.archive _ _ hinside hunnamed h
    simp [inside, unnamed] at heq

end Outline

end ArchiveScript
