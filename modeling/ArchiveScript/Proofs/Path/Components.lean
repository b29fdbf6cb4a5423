import ArchiveScript.Path
import Mathlib.Data.List.Basic

/-! # The last component of a path

A path either has no component that could be a last one, or it is what stands before the last one,
this component, and a rest that does not count: slashes, and points that stand alone between them.
-/

namespace ArchiveScript.Path

/-! ### Texts between slashes -/

def between (cs : List Char) : List (List Char) := pieces (String.ofList cs)

@[simp]
theorem between_nil : between [] = [[]] := rfl

@[simp]
theorem between_slash (cs : List Char) : between ('/' :: cs) = [] :: between cs := by
  simp [between, pieces]

theorem between_cons {c : Char} (h : c ≠ '/') {cs piece : List Char} {rest : List (List Char)}
    (hp : between cs = piece :: rest) : between (c :: cs) = (c :: piece) :: rest := by
  simp only [between, pieces, String.toList_ofList, List.foldr_cons] at hp ⊢
  rw [hp, if_neg h]

theorem exists_between (cs : List Char) : ∃ piece rest, between cs = piece :: rest := by
  induction cs with
  | nil => exact ⟨[], [], rfl⟩
  | cons c cs ih =>
    obtain ⟨piece, rest, hp⟩ := ih
    by_cases h : c = '/'
    · rw [h, between_slash]
      exact ⟨_, _, rfl⟩
    · exact ⟨_, _, between_cons h hp⟩

/-- A slash keeps what stands before it apart from what stands after it. -/
theorem between_append_slash (before after : List Char) :
    between (before ++ '/' :: after) = between before ++ between after := by
  induction before with
  | nil => simp
  | cons c before ih =>
    by_cases h : c = '/'
    · rw [h, List.cons_append, between_slash, between_slash, ih, List.cons_append]
    · obtain ⟨piece, rest, hp⟩ := exists_between before
      rw [hp, List.cons_append] at ih
      rw [List.cons_append, between_cons h ih, between_cons h hp, List.cons_append]

theorem between_append {name : List Char} (h : '/' ∉ name) {cs piece : List Char}
    {rest : List (List Char)} (hp : between cs = piece :: rest) :
    between (name ++ cs) = (name ++ piece) :: rest := by
  induction name with
  | nil => exact hp
  | cons c name ih =>
    rw [List.mem_cons, not_or] at h
    exact between_cons (Ne.symm h.1) (ih h.2)

/-! ### Parts of a path -/

/-- What can be a component other than the root. A point alone is one only at the beginning of a
path, and does not count here. -/
structure IsPart (name : List Char) : Prop where
  no_slash : '/' ∉ name
  ne_nil : name ≠ []
  ne_here : name ≠ ['.']

/-- What stands before a component: nothing, or something that ends with a slash. -/
inductive Leads : List Char → Prop
  | nil : Leads []
  | slash (before : List Char) : Leads (before ++ ['/'])

/-- What may follow the last component. -/
inductive Trails : List Char → Prop
  | nil : Trails []
  | slash {ending : List Char} (h : Trails ending) : Trails ('/' :: ending)
  | here {ending : List Char} (h : Trails ending) : Trails ('/' :: '.' :: ending)

namespace Trails

theorem take {ending : List Char} (h : Trails ending) (n : Nat) : Trails (ending.take n) := by
  induction h generalizing n with
  | nil =>
    rw [List.take_nil]
    exact .nil
  | slash _ ih =>
    cases n with
    | zero => exact .nil
    | succ n => exact .slash (ih n)
  | here _ ih =>
    match n with
    | 0 => exact .nil
    | 1 => exact .slash .nil
    | n + 2 => exact .here (ih n)

theorem between {ending : List Char} (h : Trails ending) :
    ∃ rest, Path.between ending = [] :: rest ∧ ∀ piece ∈ rest, piece = [] ∨ piece = ['.'] := by
  induction h with
  | nil => exact ⟨[], rfl, nofun⟩
  | slash _ ih =>
    obtain ⟨rest, hp, hr⟩ := ih
    refine ⟨[] :: rest, by rw [between_slash, hp], ?_⟩
    simpa using hr
  | here _ ih =>
    obtain ⟨rest, hp, hr⟩ := ih
    refine ⟨['.'] :: rest, by rw [between_slash, between_cons (by decide) hp], ?_⟩
    simpa using hr

end Trails

/-- A path is all that does not count, or it has a last component. -/
theorem exists_parts (cs : List Char) :
    (∃ ending, Trails ending ∧ (cs = ending ∨ cs = '.' :: ending)) ∨
      ∃ before name ending, cs = before ++ name ++ ending ∧ Leads before ∧ IsPart name ∧
        Trails ending := by
  induction cs with
  | nil => exact .inl ⟨[], .nil, .inl rfl⟩
  | cons c cs ih =>
    rcases ih with ⟨ending, he, rfl | rfl⟩ | ⟨before, name, ending, rfl, hb, hn, he⟩
    · by_cases hs : c = '/'
      · rw [hs]
        exact .inl ⟨_, he.slash, .inl rfl⟩
      by_cases hd : c = '.'
      · rw [hd]
        exact .inl ⟨_, he, .inr rfl⟩
      have hpart : IsPart [c] := ⟨by simpa using Ne.symm hs, by simp, by simpa using hd⟩
      exact .inr ⟨[], [c], cs, rfl, .nil, hpart, he⟩
    · by_cases hs : c = '/'
      · rw [hs]
        exact .inl ⟨_, he.here, .inl rfl⟩
      refine .inr ⟨[], [c, '.'], ending, rfl, .nil, ⟨?_, by simp, by simp⟩, he⟩
      simpa using Ne.symm hs
    · right
      cases hb with
      | nil =>
        by_cases hs : c = '/'
        · rw [hs]
          exact ⟨['/'], name, ending, rfl, .slash [], hn, he⟩
        · refine ⟨[], c :: name, ending, rfl, .nil, ⟨?_, by simp, ?_⟩, he⟩
          · simpa [Ne.symm hs] using hn.no_slash
          · simpa using fun _ => hn.ne_nil
      | slash before =>
        exact ⟨c :: before ++ ['/'], name, ending, rfl, .slash (c :: before), hn, he⟩

/-! ### Components -/

def counts (piece : List Char) : Bool := piece != [] && piece != ['.']

theorem filter_counts_eq_nil {pieces : List (List Char)}
    (h : ∀ piece ∈ pieces, piece = [] ∨ piece = ['.']) : pieces.filter counts = [] := by
  rw [List.filter_eq_nil_iff]
  intro piece hmem
  rcases h piece hmem with rfl | rfl <;> decide

theorem IsPart.counts {name : List Char} (h : IsPart name) : counts name = true := by
  simp [Path.counts, h.ne_nil, h.ne_here]

/-- The component at the beginning that is no name, if there is one. -/
def opening (cs : List Char) : List String :=
  if cs.head? = some '/' then ["/"]
  else if (between cs).head? = some ['.'] then ["."] else []

theorem components_ofList (cs : List Char) :
    components (String.ofList cs) =
      opening cs ++ ((between cs).filter counts).map String.ofList := by
  have hslash : (String.ofList cs).startsWith "/" = true ↔ cs.head? = some '/' := by
    rw [String.startsWith_string_iff, String.toList_ofList]
    cases cs <;> simp [eq_comm]
  unfold components opening
  rw [← between]
  simp only [hslash]
  split
  · rfl
  · split <;> rfl

theorem opening_append_slash (before after : List Char) :
    opening (before ++ '/' :: after) = opening (before ++ ['/']) := by
  obtain ⟨piece, rest, hp⟩ := exists_between before
  have hhead : (before ++ '/' :: after).head? = (before ++ ['/']).head? := by
    cases before <;> rfl
  rw [opening, opening, between_append_slash, between_append_slash, hp, hhead]
  rfl

/-- What stands before the last component are the components before it. -/
theorem components_parts {before name ending : List Char} (hb : Leads before) (hn : IsPart name)
    (he : Trails ending) :
    components (String.ofList (before ++ name ++ ending)) =
      components (String.ofList before) ++ [String.ofList name] := by
  obtain ⟨rest, hp, hr⟩ := he.between
  have hname := between_append hn.no_slash hp
  rw [List.append_nil] at hname
  have hkept : (name :: rest).filter counts = [name] := by
    rw [List.filter_cons_of_pos hn.counts, filter_counts_eq_nil hr]
  rw [components_ofList, components_ofList]
  cases hb with
  | nil =>
    have hopening : opening (name ++ ending) = [] := by
      have hhead : (name ++ ending).head? ≠ some '/' := by
        obtain ⟨c, tail, rfl⟩ := List.exists_cons_of_ne_nil hn.ne_nil
        have hc : c ≠ '/' := fun h => hn.no_slash (h ▸ List.mem_cons_self ..)
        simpa using hc
      rw [opening, hname, if_neg hhead, if_neg (by simpa using hn.ne_here)]
    rw [List.nil_append, hopening, hname, hkept]
    rfl
  | slash before =>
    have hcs : before ++ ['/'] ++ name ++ ending = before ++ '/' :: (name ++ ending) := by simp
    have hempty : (between []).filter counts = [] := rfl
    rw [hcs, opening_append_slash, between_append_slash, between_append_slash, hname,
      List.filter_append, List.filter_append, hkept, hempty, List.map_append, List.append_nil,
      List.append_assoc]
    rfl

theorem components_trails {cs ending : List Char} (he : Trails ending)
    (hcs : cs = ending ∨ cs = '.' :: ending) :
    components (String.ofList cs) = opening cs := by
  obtain ⟨rest, hp, hr⟩ := he.between
  have hnone : (between cs).filter counts = [] := by
    apply filter_counts_eq_nil
    rcases hcs with rfl | rfl
    · rw [hp]
      simpa using hr
    · rw [between_cons (by decide) hp]
      simpa using hr
  rw [components_ofList, hnone, List.map_nil, List.append_nil]

/-! ### Finding the last component -/

theorem skipEnd_trails {ending : List Char} (he : Trails ending) (passed rest : List Char) :
    splitName?.skipEnd passed (ending.reverse ++ rest) =
      splitName?.skipEnd (ending ++ passed) rest := by
  induction he generalizing rest with
  | nil => rfl
  | slash _ ih =>
    rw [List.reverse_cons, List.append_assoc, ih, List.singleton_append, splitName?.skipEnd]
    rfl
  | here _ ih =>
    rw [List.reverse_cons, List.reverse_cons, List.append_assoc, List.append_assoc, ih]
    simp [splitName?.skipEnd]

theorem skipEnd_part {name : List Char} (hn : IsPart name) (passed before : List Char) :
    splitName?.skipEnd passed (name.reverse ++ before) = (passed, name.reverse ++ before) := by
  have hslash : '/' ∉ name.reverse := fun h => hn.no_slash (List.mem_reverse.1 h)
  have hnil : name.reverse ≠ [] := fun h => hn.ne_nil (List.reverse_eq_nil_iff.1 h)
  have hhere : name.reverse ≠ ['.'] := fun h => hn.ne_here (List.reverse_inj.1 h)
  generalize name.reverse = turned at hslash hnil hhere
  match turned with
  | [] => exact absurd rfl hnil
  | c :: d :: more =>
    have hc : c ≠ '/' := fun h => hslash (by simp [h])
    have hd : d ≠ '/' := fun h => hslash (by simp [h])
    simp [splitName?.skipEnd, hc, hd]
  | [c] =>
    have hc : c ≠ '/' := fun h => hslash (by simp [h])
    have hp : c ≠ '.' := fun h => hhere (by simp [h])
    simp [splitName?.skipEnd, hc, hp]

theorem takeWhile_part {name : List Char} (hn : '/' ∉ name) {before : List Char}
    (hb : Leads before) :
    (name.reverse ++ before.reverse).takeWhile (· != '/') = name.reverse ∧
      (name.reverse ++ before.reverse).dropWhile (· != '/') = before.reverse := by
  have hall : ∀ c ∈ name.reverse, (c != '/') = true := by
    intro c hc
    have hne : c ≠ '/' := fun h => hn (h ▸ List.mem_reverse.1 hc)
    simpa using hne
  rw [List.takeWhile_append_of_pos hall, List.dropWhile_append_of_pos hall]
  cases hb <;> simp

theorem splitName?_parts {before name ending : List Char} (hb : Leads before) (hn : IsPart name)
    (he : Trails ending) :
    splitName? (before ++ name ++ ending) =
      if name = ['.', '.'] then none else some (before, name, ending) := by
  obtain ⟨htake, hdrop⟩ := takeWhile_part hn.no_slash hb
  unfold splitName?
  rw [List.reverse_append, skipEnd_trails he, List.reverse_append, skipEnd_part hn]
  dsimp only
  rw [htake, hdrop, List.reverse_reverse, List.reverse_reverse, List.append_nil]
  simp [hn.ne_nil]

theorem splitName?_trails {cs ending : List Char} (he : Trails ending)
    (hcs : cs = ending ∨ cs = '.' :: ending) : splitName? cs = none := by
  have hskip : ∃ passed, splitName?.skipEnd [] cs.reverse = (passed, []) := by
    rcases hcs with rfl | rfl
    · have h := skipEnd_trails he [] []
      rw [List.append_nil] at h
      exact ⟨_, h⟩
    · rw [List.reverse_cons, skipEnd_trails he]
      exact ⟨_, rfl⟩
  obtain ⟨passed, hskip⟩ := hskip
  unfold splitName?
  rw [hskip]
  rfl

end ArchiveScript.Path
