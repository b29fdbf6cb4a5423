import Mathlib
import ArchiveScript.CommandLine.Options

/-! # Groups of arguments

The arguments of a call stand in groups: a flag, an option with its value, or the script file.
Arguments that can be read are made of such groups, and what they say does not depend on the order
of the groups, as long as no value is given twice.
-/

namespace ArchiveScript.Options

def Switch.names : Switch → List String
  | .quiet => ["-q", "--quiet"]
  | .verbose => ["-v", "--verbose"]
  | .debug => ["--debug"]
  | .timing => ["-t", "--timing"]
  | .help => ["-h", "--help"]
  | .directory => ["-d", "--directory"]
  | .config => ["-c", "--config"]

def Switch.takesValue : Switch → Bool
  | .directory | .config => true
  | _ => false

inductive Group where
  /-- A flag. A text that stands after an equals sign means nothing. -/
  | flag (switch : Switch) (name : String) (text : Option String) (hn : name ∈ switch.names)
      (hs : switch.takesValue = false)
  /-- An option, whose value stands after an equals sign or is the next argument. -/
  | option (switch : Switch) (name value : String) (joined : Bool) (hn : name ∈ switch.names)
      (hs : switch.takesValue = true)
  | file (path : String) (hp : path.startsWith "-" = false ∨ path = "-")

namespace Group

def args : Group → List String
  | flag _ name none _ _ => [name]
  | flag _ name (some text) _ _ => [name ++ "=" ++ text]
  | option _ name value true _ _ => [name ++ "=" ++ value]
  | option _ name value false _ _ => [name, value]
  | file path _ => [path]

def raises (switch : Switch) : Group → Bool
  | flag other _ _ _ _ => other = switch
  | _ => false

def value? (switch : Switch) : Group → Option String
  | option other _ value _ _ _ => if other = switch then some value else none
  | _ => none

def file? : Group → Option String
  | file path _ => some path
  | _ => none

theorem args_length_pos (group : Group) : 0 < group.args.length := by
  unfold args
  split <;> simp

end Group

/-- What groups say: a flag counts wherever it stands, and of several values the last one. -/
def ofGroups (groups : List Group) : Options where
  verbosity := .ofFlags (groups.any (·.raises .quiet)) (groups.any (·.raises .verbose))
    (groups.any (·.raises .debug))
  timing := groups.any (·.raises .timing)
  directory := (groups.filterMap (·.value? .directory)).getLast?
  config := (groups.filterMap (·.value? .config)).getLast?
  file := (groups.filterMap Group.file?).getLast?
  help := groups.any (·.raises .help)

/-! ### Names and values -/

theorem switch?_eq_some_iff {name : String} {switch : Switch} :
    switch? name = some switch ↔ name ∈ switch.names := by
  constructor
  · intro h
    unfold switch? at h
    split at h <;> cases h <;> decide
  · intro h
    cases switch <;> simp only [Switch.names, List.mem_cons, List.not_mem_nil, or_false] at h <;>
      rcases h with rfl | rfl <;> rfl

theorem startsWith_dash {text : String} :
    text.startsWith "-" = true ↔ ['-'] <+: text.toList :=
  String.startsWith_string_iff

theorem Switch.names_plain {switch : Switch} {name : String} (h : name ∈ switch.names) :
    name.startsWith "-" = true ∧ '=' ∉ name.toList := by
  rw [startsWith_dash]
  cases switch <;> simp only [names, List.mem_cons, List.not_mem_nil, or_false] at h <;>
    rcases h with rfl | rfl <;> decide

theorem splitValue_bare {arg : String} (h : '=' ∉ arg.toList) : splitValue arg = (arg, none) := by
  have htake : arg.toList.takeWhile (· != '=') = arg.toList :=
    List.takeWhile_eq_self_iff.2 fun c hc => bne_iff_ne.2 (ne_of_mem_of_not_mem hc h)
  simp [splitValue, htake]

theorem splitValue_joined {name : String} (hd : name.startsWith "-" = true)
    (hn : '=' ∉ name.toList) (value : String) :
    splitValue (name ++ "=" ++ value) = (name, some value) := by
  have harg : (name ++ "=" ++ value).toList = name.toList ++ '=' :: value.toList := by simp
  have htake : (name ++ "=" ++ value).toList.takeWhile (· != '=') = name.toList := by
    rw [harg, List.takeWhile_append_of_pos fun c hc => bne_iff_ne.2 (ne_of_mem_of_not_mem hc hn)]
    simp
  have hdash : (name ++ "=" ++ value).startsWith "-" = true := by
    rw [startsWith_dash] at hd ⊢
    exact harg ▸ hd.trans (List.prefix_append _ _)
  unfold splitValue
  rw [htake, hdash, harg]
  simp

theorem splitValue_file {path : String} (h : path.startsWith "-" = false ∨ path = "-") :
    splitValue path = (path, none) := by
  rcases h with h | rfl
  · simp [splitValue, h]
  · exact splitValue_bare (by decide)

theorem splitValue_cases (arg : String) :
    splitValue arg = (arg, none) ∨
      ∃ name value, splitValue arg = (name, some value) ∧ arg = name ++ "=" ++ value := by
  rw [splitValue]
  split
  · next h =>
    simp only [Bool.and_eq_true, decide_eq_true_eq] at h
    refine .inr ⟨_, _, rfl, String.toList_inj.1 ?_⟩
    have htake := List.takeWhile_append_dropWhile (p := (· != '=')) (l := arg.toList)
    cases hdrop : arg.toList.dropWhile (· != '=') with
    | nil =>
      rw [hdrop, List.append_nil] at htake
      rw [htake] at h
      exact absurd h.2 (Nat.lt_irrefl _)
    | cons c value =>
      have hc : c = '=' := by
        have hhead := List.head_dropWhile_not (· != '=') (l := arg.toList) (by simp [hdrop])
        simpa [hdrop] using hhead
      rw [hdrop, hc] at htake
      generalize arg.toList.takeWhile (· != '=') = name at htake ⊢
      simp [← htake, List.drop_append]
  · exact .inl rfl

theorem switch?_file {path : String} (h : path.startsWith "-" = false ∨ path = "-") :
    switch? path = none := by
  cases hs : switch? path with
  | none => rfl
  | some switch =>
    have hn := switch?_eq_some_iff.1 hs
    rcases h with h | rfl
    · rw [(Switch.names_plain hn).1] at h
      cases h
    · cases switch <;> revert hn <;> decide

/-! ### One group -/

namespace Draft

def raise (draft : Draft) : Switch → Draft
  | .quiet => { draft with quiet := true }
  | .verbose => { draft with verbose := true }
  | .debug => { draft with debug := true }
  | .timing => draft.setTiming
  | .help => draft.setHelp
  | .directory | .config => draft

def give (draft : Draft) (value : String) : Switch → Draft
  | .directory => draft.setDirectory value
  | .config => draft.setConfig value
  | _ => draft

def take (draft : Draft) : Group → Draft
  | .flag switch _ _ _ _ => draft.raise switch
  | .option switch _ value _ _ _ => draft.give value switch
  | .file path _ => { draft with options := { draft.options with file := some path } }

end Draft

section Reading

variable {draft : Draft} {switch : Switch} {arg name value : String} {rest : List String}

theorem parseFrom_flag (hn : switch? (splitValue arg).1 = some switch)
    (hs : switch.takesValue = false) :
    parseFrom draft (arg :: rest) = parseFrom (draft.raise switch) rest := by
  simp only [parseFrom, hn]
  cases switch <;> first | rfl | cases hs

theorem parseFrom_joined (ha : splitValue arg = (name, some value))
    (hn : switch? name = some switch) (hs : switch.takesValue = true) :
    parseFrom draft (arg :: rest) = parseFrom (draft.give value switch) rest := by
  simp only [parseFrom, ha, hn]
  cases switch <;> first | rfl | cases hs

theorem parseFrom_next (ha : splitValue arg = (name, none))
    (hn : switch? name = some switch) (hs : switch.takesValue = true) :
    parseFrom draft (arg :: value :: rest) = parseFrom (draft.give value switch) rest := by
  simp only [parseFrom, ha, hn]
  cases switch <;> first | rfl | cases hs

theorem parseFrom_missing (ha : splitValue arg = (name, none))
    (hn : switch? name = some switch) (hs : switch.takesValue = true) :
    parseFrom draft [arg] = .error (.missingValue name) := by
  simp only [parseFrom, ha, hn]
  cases switch <;> first | rfl | cases hs

theorem parseFrom_other (hn : switch? (splitValue arg).1 = none) :
    parseFrom draft (arg :: rest) = (draft.other arg).bind (parseFrom · rest) := by
  simp only [parseFrom, hn]
  cases draft.other arg <;> rfl

end Reading

theorem Draft.other_eq_ok_iff {draft next : Draft} {arg : String} :
    draft.other arg = .ok next ↔ draft.options.file = none ∧
      ∃ hp : arg.startsWith "-" = false ∨ arg = "-", next = draft.take (.file arg hp) := by
  have hlook : (arg.startsWith "-" && arg != "-") = false ↔
      arg.startsWith "-" = false ∨ arg = "-" := by
    rw [Bool.and_eq_false_iff, bne_eq_false_iff_eq]
  unfold Draft.other Draft.setFile
  split
  · next h =>
    refine ⟨nofun, fun ⟨_, hp, _⟩ => ?_⟩
    rw [hlook.2 hp] at h
    cases h
  · next h =>
    rw [Bool.not_eq_true, hlook] at h
    cases hf : draft.options.file with
    | none => exact ⟨fun h' => ⟨rfl, h, (Except.ok.inj h').symm⟩, fun ⟨_, _, h'⟩ => h' ▸ rfl⟩
    | some file => exact ⟨nofun, nofun⟩

/-- The arguments of a group are read together. -/
theorem parseFrom_args (draft : Draft) (group : Group) (rest : List String)
    (h : group.file?.isSome → draft.options.file = none) :
    parseFrom draft (group.args ++ rest) = parseFrom (draft.take group) rest := by
  cases group with
  | flag switch name text hn hs =>
    have hplain := Switch.names_plain hn
    have hswitch := switch?_eq_some_iff.2 hn
    cases text with
    | none => exact parseFrom_flag (by rw [splitValue_bare hplain.2, hswitch]) hs
    | some text => exact parseFrom_flag (by rw [splitValue_joined hplain.1 hplain.2, hswitch]) hs
  | option switch name value joined hn hs =>
    have hplain := Switch.names_plain hn
    have hswitch := switch?_eq_some_iff.2 hn
    cases joined with
    | false => exact parseFrom_next (splitValue_bare hplain.2) hswitch hs
    | true => exact parseFrom_joined (splitValue_joined hplain.1 hplain.2 value) hswitch hs
  | file path hp =>
    have hother : draft.other path = .ok (draft.take (.file path hp)) :=
      Draft.other_eq_ok_iff.2 ⟨h rfl, hp, rfl⟩
    change parseFrom draft (path :: rest) = _
    rw [parseFrom_other (by rw [splitValue_file hp, switch?_file hp]), hother]
    rfl

/-- Arguments that are read start with a group. -/
theorem exists_group {draft final : Draft} {arg : String} {rest : List String}
    (h : parseFrom draft (arg :: rest) = .ok final) :
    ∃ group left, arg :: rest = group.args ++ left ∧
      (group.file?.isSome → draft.options.file = none) ∧
      parseFrom (draft.take group) left = .ok final := by
  cases hs : switch? (splitValue arg).1 with
  | none =>
    rw [parseFrom_other hs] at h
    cases hother : draft.other arg with
    | error => rw [hother] at h; cases h
    | ok next =>
      rw [hother] at h
      obtain ⟨hfile, hp, rfl⟩ := Draft.other_eq_ok_iff.1 hother
      exact ⟨.file arg hp, rest, rfl, fun _ => hfile, h⟩
  | some switch =>
    have hn := switch?_eq_some_iff.1 hs
    cases ht : switch.takesValue with
    | false =>
      rw [parseFrom_flag hs ht] at h
      rcases splitValue_cases arg with ha | ⟨name, text, ha, harg⟩
      · rw [ha] at hn
        exact ⟨.flag switch arg none hn ht, rest, rfl, nofun, h⟩
      · rw [ha] at hn
        exact ⟨.flag switch name (some text) hn ht, rest, by rw [harg]; rfl, nofun, h⟩
    | true =>
      rcases splitValue_cases arg with ha | ⟨name, value, ha, harg⟩
      · rw [ha] at hs hn
        cases rest with
        | nil => rw [parseFrom_missing ha hs ht] at h; cases h
        | cons value left =>
          rw [parseFrom_next ha hs ht] at h
          exact ⟨.option switch arg value false hn ht, left, rfl, nofun, h⟩
      · rw [ha] at hs hn
        rw [parseFrom_joined ha hs ht] at h
        exact ⟨.option switch name value true hn ht, rest, by rw [harg]; rfl, nofun, h⟩

/-! ### All groups -/

theorem flag_foldl (flag : Draft → Bool) {raises : Group → Bool}
    (step : ∀ draft group, flag (draft.take group) = (flag draft || raises group))
    (groups : List Group) (draft : Draft) :
    flag (groups.foldl Draft.take draft) = (flag draft || groups.any raises) := by
  induction groups generalizing draft with
  | nil => simp
  | cons group groups ih => simp [ih, step, Bool.or_assoc]

/-- A value of the draft is after groups the last one that they give, or else the one before. -/
theorem value_foldl (value : Draft → Option String) {value? : Group → Option String}
    (step : ∀ draft group, value (draft.take group) = (value? group).or (value draft))
    (groups : List Group) (draft : Draft) :
    value (groups.foldl Draft.take draft) =
      (groups.filterMap value?).getLast?.or (value draft) := by
  induction groups generalizing draft with
  | nil => simp
  | cons group groups ih =>
    rw [List.foldl_cons, ih, step]
    cases hv : value? group with
    | none => simp [hv]
    | some v => cases hl : groups.filterMap value? <;> simp [hv, hl, List.getLast?_cons]

structure Draft.Takes (draft : Draft) (group : Group) (after : Draft) : Prop where
  quiet : after.quiet = (draft.quiet || group.raises .quiet)
  verbose : after.verbose = (draft.verbose || group.raises .verbose)
  debug : after.debug = (draft.debug || group.raises .debug)
  timing : after.options.timing = (draft.options.timing || group.raises .timing)
  help : after.options.help = (draft.options.help || group.raises .help)
  directory : after.options.directory = (group.value? .directory).or draft.options.directory
  config : after.options.config = (group.value? .config).or draft.options.config
  file : after.options.file = group.file?.or draft.options.file

theorem Draft.takes (draft : Draft) (group : Group) : draft.Takes group (draft.take group) := by
  cases group with
  | flag switch name text hn hs =>
    cases switch <;> constructor <;>
      first
      | rfl
      | exact (Bool.or_false _).symm
      | exact (Bool.or_true _).symm
  | option switch name value joined hn hs =>
    cases switch <;> constructor <;>
      first
      | rfl
      | exact (Bool.or_false _).symm
  | file path hp =>
    constructor <;>
      first
      | rfl
      | exact (Bool.or_false _).symm

theorem finish_foldl (groups : List Group) :
    (groups.foldl Draft.take {}).finish = ofGroups groups := by
  have hquiet := flag_foldl Draft.quiet (fun draft group => (draft.takes group).quiet) groups {}
  have hverbose := flag_foldl Draft.verbose
    (fun draft group => (draft.takes group).verbose) groups {}
  have hdebug := flag_foldl Draft.debug (fun draft group => (draft.takes group).debug) groups {}
  have htiming := flag_foldl (fun draft => draft.options.timing)
    (fun draft group => (draft.takes group).timing) groups {}
  have hhelp := flag_foldl (fun draft => draft.options.help)
    (fun draft group => (draft.takes group).help) groups {}
  have hdirectory := value_foldl (fun draft => draft.options.directory)
    (fun draft group => (draft.takes group).directory) groups {}
  have hconfig := value_foldl (fun draft => draft.options.config)
    (fun draft group => (draft.takes group).config) groups {}
  have hfile := value_foldl (fun draft => draft.options.file)
    (fun draft group => (draft.takes group).file) groups {}
  simp only [Bool.false_or, Option.or_none] at *
  simp [Draft.finish, ofGroups, *]

def Draft.filesWith (draft : Draft) (groups : List Group) : List String :=
  draft.options.file.toList ++ groups.filterMap Group.file?

theorem Draft.filesWith_take {draft : Draft} {group : Group} {groups : List Group}
    (h : group.file?.isSome → draft.options.file = none) :
    (draft.take group).filesWith groups = draft.filesWith (group :: groups) := by
  cases group with
  | flag switch => cases switch <;> rfl
  | option switch => cases switch <;> rfl
  | file path => simp [filesWith, Draft.take, h rfl, Group.file?]

theorem parseFrom_flatMap (draft : Draft) {groups : List Group}
    (h : (draft.filesWith groups).length ≤ 1) :
    parseFrom draft (groups.flatMap Group.args) = .ok (groups.foldl Draft.take draft) := by
  induction groups generalizing draft with
  | nil => rfl
  | cons group groups ih =>
    have hfile : group.file?.isSome → draft.options.file = none := by
      intro hg
      obtain ⟨path, hpath⟩ := Option.isSome_iff_exists.1 hg
      cases hd : draft.options.file with
      | none => rfl
      | some other => simp [Draft.filesWith, hd, hpath] at h
    rw [List.flatMap_cons, parseFrom_args draft group _ hfile, List.foldl_cons]
    exact ih _ (Draft.filesWith_take hfile ▸ h)

theorem exists_groups {draft final : Draft} {args : List String}
    (h : parseFrom draft args = .ok final) :
    ∃ groups : List Group, args = groups.flatMap Group.args ∧
      (draft.filesWith groups).length ≤ 1 ∧ final = groups.foldl Draft.take draft := by
  -- A group may take two arguments, so the induction is on how many there are.
  induction hlen : args.length using Nat.strong_induction_on generalizing draft args with
  | _ n ih =>
  cases args with
  | nil =>
    cases h
    refine ⟨[], rfl, ?_, rfl⟩
    rw [Draft.filesWith, List.filterMap_nil, List.append_nil]
    exact Option.length_toList_le
  | cons arg rest =>
    obtain ⟨group, left, hargs, hfile, hleft⟩ := exists_group h
    have hshort : left.length < n := by
      rw [← hlen, hargs, List.length_append]
      have := group.args_length_pos
      omega
    obtain ⟨groups, rfl, hone, rfl⟩ := ih _ hshort hleft rfl
    exact ⟨group :: groups, hargs, Draft.filesWith_take hfile ▸ hone, rfl⟩

/-! ### Order -/

theorem eq_of_perm {values others : List String} (h : values.Perm others)
    (hone : values.length ≤ 1) : values = others := by
  match values, hone with
  | [], _ => exact h.nil_eq
  | [value], _ => exact List.singleton_perm.1 h

theorem ofGroups_perm {groups others : List Group} (h : groups.Perm others)
    (hdirectory : (groups.filterMap (·.value? .directory)).length ≤ 1)
    (hconfig : (groups.filterMap (·.value? .config)).length ≤ 1)
    (hfile : (groups.filterMap Group.file?).length ≤ 1) : ofGroups groups = ofGroups others := by
  rw [ofGroups, ofGroups, eq_of_perm (h.filterMap _) hdirectory, eq_of_perm (h.filterMap _) hconfig,
    eq_of_perm (h.filterMap _) hfile]
  simp only [h.any_eq]

/-- Groups that give no value twice say the same in every order, and whatever can be read is made
of groups of which one at most is a file. -/
theorem parse_groups :
    (∀ groups others : List Group,
      (groups.filterMap Group.file?).length ≤ 1 →
      (groups.filterMap (·.value? .directory)).length ≤ 1 →
      (groups.filterMap (·.value? .config)).length ≤ 1 →
      groups.Perm others → parse (others.flatMap Group.args) = .ok (ofGroups groups)) ∧
    ∀ args options, parse args = .ok options ↔
      ∃ groups : List Group, args = groups.flatMap Group.args ∧
        (groups.filterMap Group.file?).length ≤ 1 ∧ options = ofGroups groups := by
  have hparse : ∀ groups : List Group, (groups.filterMap Group.file?).length ≤ 1 →
      parse (groups.flatMap Group.args) = .ok (ofGroups groups) := by
    intro groups hfile
    rw [parse, parseFrom_flatMap {} hfile, Except.map, finish_foldl]
  refine ⟨fun groups others hfile hdirectory hconfig h => ?_, fun args options => ⟨?_, ?_⟩⟩
  · rw [hparse others ((h.filterMap _).length_eq ▸ hfile),
      ofGroups_perm h hdirectory hconfig hfile]
  · intro h
    rw [parse] at h
    cases hfinal : parseFrom {} args with
    | error => rw [hfinal] at h; cases h
    | ok final =>
      obtain ⟨groups, hargs, hone, rfl⟩ := exists_groups hfinal
      rw [hfinal] at h
      cases h
      exact ⟨groups, hargs, hone, finish_foldl groups⟩
  · rintro ⟨groups, rfl, hone, rfl⟩
    exact hparse groups hone

/-- The value of a directory option may look like a flag, and a flag may carry a text. -/
theorem parse_groups_reversed :
    parse ["-", "-d", "--debug", "-q=no"] =
      .ok { verbosity := .quiet, directory := some "--debug", file := some "-" } :=
  parse_groups.1
    [.flag .quiet "-q" (some "no") (by decide) rfl,
      .option .directory "-d" "--debug" false (by decide) rfl, .file "-" (.inr rfl)]
    [.file "-" (.inr rfl), .option .directory "-d" "--debug" false (by decide) rfl,
      .flag .quiet "-q" (some "no") (by decide) rfl]
    (by decide) (by decide) (by decide) (List.reverse_perm _).symm

end ArchiveScript.Options
