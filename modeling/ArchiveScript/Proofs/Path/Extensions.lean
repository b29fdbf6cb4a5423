import ArchiveScript.Proofs.Path.Components

/-! # Paths with another extension

With another extension a path becomes another one, unless it has no name at its end or has that
extension already. The old extension is cut off at the end of the text, which leaves of a name like
`..a` the way to the directory above.
-/

namespace ArchiveScript.Path

/-! ### Extensions of names -/

theorem takeWhile_reverse {old : List Char} (ho : '.' ∉ old) (rest : List Char) :
    (old.reverse ++ rest).takeWhile (· != '.') = old.reverse ++ rest.takeWhile (· != '.') := by
  apply List.takeWhile_append_of_pos
  intro c hc
  have hne : c ≠ '.' := fun h => ho (h ▸ List.mem_reverse.1 hc)
  simpa using hne

theorem splitExtension_point {stem old : List Char} (ho : '.' ∉ old) :
    splitExtension (stem ++ '.' :: old) =
      if stem = [] then ('.' :: old, none) else (stem, some old) := by
  have htake : (stem ++ '.' :: old).reverse.takeWhile (· != '.') = old.reverse := by
    rw [List.reverse_append, List.reverse_cons, List.append_assoc, List.singleton_append,
      takeWhile_reverse ho]
    simp
  have hlength : (stem ++ '.' :: old).length = stem.length + 1 + old.length := by
    simp only [List.length_append, List.length_cons]
    omega
  have hne : old.length ≠ stem.length + (old.length + 1) := by omega
  have hstem : (stem ++ '.' :: old).length - old.length - 1 = stem.length := by omega
  unfold splitExtension
  rw [htake, List.reverse_reverse]
  dsimp only
  rw [hstem, List.take_left]
  by_cases h : stem = []
  · rw [if_pos (by simp [h]), if_pos h, h, List.nil_append]
  · rw [if_neg (by simpa [h] using hne), if_neg h]

theorem splitExtension_bare {name : List Char} (hn : '.' ∉ name) :
    splitExtension name = (name, none) := by
  have htake := takeWhile_reverse hn []
  rw [List.append_nil, List.takeWhile_nil, List.append_nil] at htake
  unfold splitExtension
  rw [htake, List.reverse_reverse]
  simp

/-- A name has no extension, or it is what stands before the last point, this point and the
extension. -/
theorem splitExtension_cases (name : List Char) :
    (splitExtension name = (name, none) ∧
      ∀ stem old, stem ≠ [] → '.' ∉ old → name ≠ stem ++ '.' :: old) ∨
    ∃ stem old, stem ≠ [] ∧ '.' ∉ old ∧ name = stem ++ '.' :: old := by
  by_cases h : ∃ stem old, stem ≠ [] ∧ '.' ∉ old ∧ name = stem ++ '.' :: old
  · exact .inr h
  left
  constructor
  · by_cases hp : '.' ∈ name
    · obtain ⟨turned, rest, hname, hturned⟩ := List.eq_append_cons_of_mem (List.mem_reverse.2 hp)
      have hname : name = rest.reverse ++ '.' :: turned.reverse := by
        rw [← List.reverse_reverse name, hname]
        simp
      have hold : '.' ∉ turned.reverse := fun hm => hturned (List.mem_reverse.1 hm)
      have hstem : rest.reverse = [] := by
        by_contra hs
        exact h ⟨_, _, hs, hold, hname⟩
      rw [hname, splitExtension_point hold, if_pos hstem, hstem, List.nil_append]
    · exact splitExtension_bare hp
  · intro stem old hs ho hname
    exact h ⟨stem, old, hs, ho, hname⟩

/-! ### Paths with another extension -/

section

variable {cs before name ending stem old : List Char} (extension : String)

theorem withExtension_of_none (h : splitName? cs = none) :
    withExtension (String.ofList cs) extension = String.ofList cs := by
  simp only [withExtension, String.toList_ofList, h]

theorem withExtension_of_bare (h : splitName? cs = some (before, name, ending))
    (hx : splitExtension name = (name, none)) :
    withExtension (String.ofList cs) extension =
      String.ofList (before ++ (name ++ '.' :: extension.toList)) := by
  simp only [withExtension, String.toList_ofList, h, hx, List.append_assoc]

theorem withExtension_of_point (h : splitName? cs = some (before, name, ending))
    (hx : splitExtension name = (stem, some old)) :
    withExtension (String.ofList cs) extension =
      match splitName? (cs.take (cs.length - old.length)) with
      | none => String.ofList (cs.take (cs.length - old.length))
      | some (before, name, _) =>
        String.ofList (before ++ (splitExtension name).1 ++ '.' :: extension.toList) := by
  cases hs : splitName? (cs.take (cs.length - old.length)) <;>
    simp only [withExtension, String.toList_ofList, h, hx, hs]

theorem take_extension :
    (before ++ (stem ++ '.' :: old) ++ ending).take
        ((before ++ (stem ++ '.' :: old) ++ ending).length - old.length) =
      before ++ (stem ++ '.' :: old.take ending.length) ++
        ending.take (ending.length - old.length) := by
  have hlength : (before ++ (stem ++ '.' :: old) ++ ending).length - old.length =
      (before ++ (stem ++ ['.'])).length + ending.length := by
    simp only [List.length_append, List.length_cons, List.length_nil]
    omega
  have hcs : before ++ (stem ++ '.' :: old) ++ ending =
      before ++ (stem ++ ['.']) ++ (old ++ ending) := by simp
  rw [hlength, hcs, List.take_length_add_append, List.take_append]
  simp

/-- An extension takes the place of the old one. Of a name that is a point before its extension,
and with which the text ends, only points are left. -/
theorem withExtension_point (hb : Leads before) (hn : IsPart (stem ++ '.' :: old))
    (he : Trails ending) (hs : stem ≠ []) (ho : '.' ∉ old)
    (hup : stem ++ '.' :: old ≠ ['.', '.']) :
    withExtension (String.ofList (before ++ (stem ++ '.' :: old) ++ ending)) extension =
      String.ofList (before ++
        if stem = ['.'] ∧ ending = [] then ['.', '.'] else stem ++ '.' :: extension.toList) := by
  have hsplit := splitName?_parts hb hn he
  rw [if_neg hup] at hsplit
  have hx := @splitExtension_point stem _ ho
  rw [if_neg hs] at hx
  -- What the cut leaves of the extension is still one, and the path has still a last component.
  have hpart : IsPart (stem ++ '.' :: old.take ending.length) := by
    constructor
    · intro hm
      apply hn.no_slash
      simp only [List.mem_append, List.mem_cons] at hm ⊢
      exact hm.imp_right (·.imp_right List.mem_of_mem_take)
    · simp
    · obtain ⟨c, tail, rfl⟩ := List.exists_cons_of_ne_nil hs
      simp
  have hold : '.' ∉ old.take ending.length := fun hm => ho (List.mem_of_mem_take hm)
  have hcut := splitName?_parts hb hpart (he.take (ending.length - old.length))
  have hpoints : stem ++ '.' :: old.take ending.length = ['.', '.'] ↔
      stem = ['.'] ∧ ending = [] := by
    constructor
    · intro h
      obtain ⟨c, tail, rfl⟩ := List.exists_cons_of_ne_nil hs
      cases tail with
      | nil =>
        obtain ⟨rfl, hlength | rfl⟩ : c = '.' ∧ (ending = [] ∨ old = []) := by simpa using h
        · exact ⟨rfl, hlength⟩
        · exact absurd rfl hup
      | cons d tail => simp at h
    · rintro ⟨rfl, rfl⟩
      rfl
  rw [withExtension_of_point extension hsplit hx, take_extension, hcut]
  by_cases h : stem = ['.'] ∧ ending = []
  · rw [if_pos (hpoints.2 h), if_pos h, hpoints.2 h, h.2]
    simp
  · rw [if_neg (fun hp => h (hpoints.1 hp)), if_neg h]
    dsimp only
    rw [splitExtension_point hold, if_neg hs, List.append_assoc]

end

/-! ### The name of a path -/

def lastName? (path : Path) : Option String :=
  (components path).getLast?.filter fun name => name ∉ ["/", ".", ".."]

theorem lastName?_trails {cs ending : List Char} (he : Trails ending)
    (hcs : cs = ending ∨ cs = '.' :: ending) : lastName? (String.ofList cs) = none := by
  rw [lastName?, components_trails he hcs, opening]
  split
  · rfl
  · split <;> rfl

theorem lastName?_parts {before name ending : List Char} (hb : Leads before) (hn : IsPart name)
    (he : Trails ending) :
    lastName? (String.ofList (before ++ name ++ ending)) =
      if name = ['.', '.'] then none else some (String.ofList name) := by
  have hmem : String.ofList name ∈ ["/", ".", ".."] ↔ name = ['.', '.'] := by
    have hroot : name ≠ ['/'] := fun h => hn.no_slash (h ▸ List.mem_singleton_self _)
    simp [← String.toList_inj, hroot, hn.ne_here]
  rw [lastName?, components_parts hb hn he, List.getLast?_concat, Option.filter_some]
  by_cases h : name = ['.', '.']
  · rw [if_pos h, if_neg (decide_eq_true_iff.not.2 (not_not.2 (hmem.2 h)))]
  · rw [if_neg h, if_pos (decide_eq_true_iff.2 (mt hmem.1 h))]

theorem getLast?_between {before name ending : List Char} (hb : Leads before) (hn : IsPart name)
    (he : Trails ending) :
    (between (before ++ name ++ ending)).getLast? = some name ↔ ending = [] := by
  obtain ⟨rest, hp, hr⟩ := he.between
  have hname := between_append hn.no_slash hp
  rw [List.append_nil] at hname
  have hlast : (between (before ++ name ++ ending)).getLast? = (name :: rest).getLast? := by
    cases hb with
    | nil => rw [List.nil_append, hname]
    | slash before =>
      have hcs : before ++ ['/'] ++ name ++ ending = before ++ '/' :: (name ++ ending) := by simp
      rw [hcs, between_append_slash, hname, List.getLast?_append_of_ne_nil _ (by simp)]
  rw [hlast]
  constructor
  · intro h
    have hmem : rest.getLast? = some name → False := by
      intro hl
      rcases hr name (List.mem_of_getLast? hl) with hnil | hhere
      · exact hn.ne_nil hnil
      · exact hn.ne_here hhere
    cases he with
    | nil => rfl
    | slash he | here he =>
      rw [between_slash] at hp
      obtain ⟨piece, more, hrest⟩ := exists_between _
      rw [← (List.cons.inj hp).2, hrest] at h hmem
      exact (hmem (List.getLast?_cons_cons.symm.trans h)).elim
  · rintro rfl
    obtain rfl : rest = [] := (List.cons.inj hp).2.symm
    rfl

theorem same_parts {before name other ending : List Char} (hb : Leads before) (hn : IsPart name)
    (ho : IsPart other) (he : Trails ending) :
    same (String.ofList (before ++ other)) (String.ofList (before ++ name ++ ending)) = true ↔
      other = name := by
  have hother := components_parts hb ho .nil
  rw [List.append_nil] at hother
  rw [same, beq_iff_eq, hother, components_parts hb hn he, List.append_cancel_left_eq,
    List.cons.injEq]
  simp [← String.toList_inj]

theorem point_inj {stem stem' old old' : List Char} (hs : stem ≠ []) (hs' : stem' ≠ [])
    (ho : '.' ∉ old) (ho' : '.' ∉ old') (h : stem ++ '.' :: old = stem' ++ '.' :: old') :
    stem = stem' ∧ old = old' := by
  have hx := @splitExtension_point stem _ ho
  rw [h, splitExtension_point ho', if_neg hs, if_neg hs'] at hx
  simpa [eq_comm] using hx

theorem ofList_eq_point {name : List Char} {stem extension : String} :
    some (String.ofList name) = some (stem ++ "." ++ extension) ↔
      name = stem.toList ++ '.' :: extension.toList := by
  rw [Option.some_inj, ← String.toList_inj]
  simp

/-- With another extension a path becomes one with other components, unless it ends in no name or
in one that has this extension already and is kept. -/
theorem same_withExtension_iff {extension : String} (hpoint : '.' ∉ extension.toList)
    (hslash : '/' ∉ extension.toList) (path : Path) :
    same (withExtension path extension) path = true ↔
      lastName? path = none ∨
      ∃ stem, stem ≠ "" ∧ lastName? path = some (stem ++ "." ++ extension) ∧
        (stem = "." → (pieces path).getLast? ≠ some ('.' :: '.' :: extension.toList)) := by
  obtain ⟨cs, rfl⟩ : ∃ cs, path = String.ofList cs := ⟨path.toList, path.ofList_toList.symm⟩
  rcases exists_parts cs with ⟨ending, he, hcs⟩ | ⟨before, name, ending, rfl, hb, hn, he⟩
  · rw [withExtension_of_none _ (splitName?_trails he hcs), lastName?_trails he hcs]
    simp [same]
  have hsplit := splitName?_parts hb hn he
  have hlast := lastName?_parts hb hn he
  by_cases hup : name = ['.', '.']
  · rw [if_pos hup] at hsplit hlast
    rw [withExtension_of_none _ hsplit, hlast]
    simp [same]
  rw [if_neg hup] at hsplit hlast
  rw [hlast, or_iff_right (Option.some_ne_none _), ← between]
  simp only [ofList_eq_point]
  have hpart {stem : List Char} (hstem : '/' ∉ stem) (hs : stem ≠ []) :
      IsPart (stem ++ '.' :: extension.toList) := by
    refine ⟨by simp [hstem, hslash], by simp, ?_⟩
    obtain ⟨c, tail, rfl⟩ := List.exists_cons_of_ne_nil hs
    simp
  rcases splitExtension_cases name with ⟨hx, hnone⟩ | ⟨stem, old, hs, ho, rfl⟩
  · rw [withExtension_of_bare _ hsplit hx, same_parts hb hn (hpart hn.no_slash hn.ne_nil) he]
    apply iff_of_false
    · simp
    · rintro ⟨stem, hstem, hname, -⟩
      exact hnone stem.toList _ (by simpa using hstem) hpoint hname
  have hstem : '/' ∉ stem := fun hm => hn.no_slash (List.mem_append_left _ hm)
  have hend := getLast?_between hb hn he
  rw [withExtension_point _ hb hn he hs ho hup]
  by_cases hpoints : stem = ['.'] ∧ ending = []
  · obtain ⟨rfl, rfl⟩ := hpoints
    rw [if_pos ⟨rfl, rfl⟩, same_parts hb hn ⟨by decide, by decide, by decide⟩ he]
    apply iff_of_false
    · exact Ne.symm hup
    · rintro ⟨stem, hne, hname, hkept⟩
      obtain ⟨hdot, rfl⟩ := point_inj hs (by simpa using hne) ho hpoint hname
      exact hkept (by rw [← String.toList_inj, ← hdot]; rfl) (hend.2 rfl)
  · rw [if_neg hpoints, same_parts hb hn (hpart hstem hs) he, List.append_cancel_left_eq,
      List.cons.injEq]
    constructor
    · rintro ⟨-, rfl⟩
      refine ⟨String.ofList stem, by simpa using hs, by simp, ?_⟩
      intro hdot hlast
      have hdot : stem = ['.'] := by simpa using congrArg String.toList hdot
      subst hdot
      exact hpoints ⟨rfl, hend.1 hlast⟩
    · rintro ⟨stem', hne, hname, -⟩
      exact ⟨rfl, (point_inj hs (by simpa using hne) ho hpoint hname).2.symm⟩

end ArchiveScript.Path
