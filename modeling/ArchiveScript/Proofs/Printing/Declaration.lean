import ArchiveScript.Proofs.Printing.Blocks

/-! # Reading declarations back

The items of a metadata block, the declarations inside them and the lists of parameters. The items
of each block fit into it, and a reader that takes a block reads it as the trees of its items.
-/

namespace ArchiveScript.Printing

open Node Scan

theorem Heads.of_part {c : Char} {cs : List Char} (h : isNamePart c = true) : Heads (c :: cs) := by
  refine ⟨isIndent_of_isNamePart h, List.cons_ne_nil c cs, fun hc => ?_⟩
  rw [Option.some.inj hc] at h
  exact absurd h (by decide)

theorem NameOf.heads {part : Char → Bool} (name : NameOf part) (rest : List Char) :
    Heads (name.print ++ rest) :=
  .of_part (isNamePart_of_isNameStart name.isStart)

variable {pos fuel number : Nat} {layout : Layout} {header : Line} {lines after : List Line}

section Fields

theorem Takes.finish {outcome : Plain (Node × Scan)} {tree : Node}
    (h : Gives outcome tree []) :
    Takes (LineReader.onLine do
      let (value, rest) ← outcome
      rest.finish
      return value) lines lines tree := by
  obtain ⟨pos, rfl⟩ := h
  exact .inline rfl

theorem fieldValue_print (hb : Below header layout after) (value : FieldValue)
    (hs : Shown (value.lines layout.margin) lines) :
    Takes (Declaration.fieldValue header ⟨pos, value.head⟩) (lines ++ after) after
      value.tree := by
  cases value with
  | basic basic =>
    cases hs
    have hn : basic.print.isEmpty = false := List.isEmpty_eq_false_iff.2 basic.print_ne_nil
    rw [Declaration.fieldValue, FieldValue.head, skipBlanks_space basic.print_not_indent]
    dsimp only
    rw [hn, if_neg Bool.false_ne_true]
    exact .finish (basic_print_end basic)
  | raw raw => exact verbatim_print hb raw hs

theorem FieldValue.head_oneLine (value : FieldValue) : OneLine value.head := by
  cases value with
  | basic basic => exact .cons (by decide) basic.oneLine
  | raw raw => exact .of_forall nofun

theorem FieldValue.lines_oneLine (value : FieldValue) :
    ∀ content ∈ value.lines layout.margin, OneLine content := by
  cases value with
  | basic basic => exact nofun
  | raw raw => exact raw.oneLine (layout.blank [])

end Fields

section Parameters

theorem parameter_print (parameter : Parameter) (hh : header.body = parameter.item.head) :
    Takes (Declaration.parameter header) lines lines parameter.item.child.2 := by
  obtain ⟨name, quoted⟩ := parameter
  have hq : (Quoted.print quoted ++ []).head?.any isNamePart = false := by cases quoted <;> rfl
  obtain ⟨pos₁, hf⟩ :
      Gives (Scan.identifier "a parameter name"
          ⟨header.bodyStart, name.print ++ (Quoted.print quoted ++ [])⟩) name.tree
        (Quoted.print quoted ++ []) := identifier_start_print _ name hq
  obtain ⟨pos₂, hd⟩ := @description?_print pos₁ [] quoted (.inl rfl)
  refine .inline ?_
  rw [List.append_nil] at hf
  rw [Line.scan, hh, Parameter.item]
  dsimp only
  rw [hf, pure_bind]
  dsimp only
  rw [← List.append_nil (Quoted.print quoted), hd, pure_bind]
  dsimp only
  rw [Quoted.trees_eq]
  rfl

theorem Parameter.fits (parameter : Parameter) (margin : List Char) :
    parameter.item.Fits .parameters margin where
  heads := parameter.name.heads _
  notElse := nofun
  oneLine := (Name.oneLine parameter.name).append (Quoted.oneLine parameter.description)
  below := nofun
  reads header lines after fuel hg hh hs hf ha := by
    cases hs
    exact (parameter_print parameter hh).bind (.pure _)

theorem parameters_print (hb : Below header layout after) (parameters : Parameters)
    (hs : Shown (parameters.print layout) lines) (hf : lines.length < fuel) :
    Takes (Declaration.parameters (blockItems fuel none) header) (lines ++ after) after
      parameters.tree := by
  have hi : ∀ item ∈ parameters.list.map Parameter.item, item.Fits .parameters layout.margin :=
    List.forall_mem_map.2 fun parameter _ => parameter.fits layout.margin
  have hn : parameters.list.map Parameter.item ≠ [] := fun h =>
    parameters.nonempty (List.map_eq_nil_iff.1 h)
  refine (hasBlock_print hb hn hi hs).bind ?_
  rw [if_pos rfl]
  refine (block_print hb hi hs hf).bind (.inline ?_)
  rw [List.map_map]
  rfl

theorem Parameters.lines_oneLine (parameters : Parameters) :
    ∀ content ∈ parameters.print layout, OneLine content :=
  linesOf_oneLine (List.forall_mem_map.2 fun parameter _ => parameter.fits layout.margin)

end Parameters

section Repetition

theorem fields_none (node : Node) (children : List Child) :
    fields ((none, node) :: children) = fields children := rfl

theorem fields_some (field : Field) (node : Node) (children : List Child) :
    fields ((some field, node) :: children) = field :: fields children := rfl

theorem fields_append (first second : List Child) :
    fields (first ++ second) = fields first ++ fields second := List.filterMap_append

theorem repeatedFields_eq_nil (span : Node → Span) {passed children : List Child}
    (h : (fields children).Nodup)
    (hd : ∀ field ∈ fields children, passed.any (·.1 == some field) = false) :
    repeatedFields span passed children = [] := by
  induction children generalizing passed with
  | nil => rfl
  | cons child rest ih =>
    obtain ⟨place, node⟩ := child
    cases place with
    | none =>
      rw [fields_none] at h hd
      exact ih h fun field hf => by rw [List.any_cons, hd field hf]; rfl
    | some label =>
      rw [fields_some] at h hd
      obtain ⟨hn, hr⟩ := List.nodup_cons.1 h
      obtain ⟨hl, hd⟩ := List.forall_mem_cons.1 hd
      rw [repeatedFields, hl, if_neg Bool.false_ne_true]
      refine ih hr fun field hf => ?_
      have hne : label ≠ field := fun he => hn (he ▸ hf)
      rw [List.any_cons, hd field hf, Bool.or_false]
      exact beq_eq_false_iff_ne.2 fun he => hne (Option.some.inj he)

theorem Takes.once {kind : Kind} {start stop : Nat} {children : List Child}
    (h : (fields children).Nodup) :
    Takes (do
      LineReader.note (repeatedFields (← Builder.spans) [] children)
      Builder.spanning kind start stop children) lines lines (branch kind children) :=
  .spans_bind (.note_bind (repeatedFields_eq_nil _ h fun _ _ => rfl) (.inline rfl))

end Repetition

section Declarations

/-- There is a description in the block of a declaration only if there is none before it. -/
theorem DeclaredItems.fields_trees {kind : Kind} {described : Bool}
    (items : DeclaredItems kind described) :
    fields items.trees = [] ∨ described = false ∧ fields items.trees = [.description] := by
  match described, items with
  | _, .nil => exact .inl rfl
  | _, .description value rest =>
    rcases rest.fields_trees with h | ⟨h, _⟩
    · exact .inr ⟨rfl, by rw [DeclaredItems.trees, fields_some, h]⟩
    · cases h
  | _, .nested keyword inner h item rest =>
    rw [DeclaredItems.trees, fields_none]
    exact rest.fields_trees

theorem DeclaredItems.once (name : Name) (description : Option Quoted) {kind : Kind}
    (items : DeclaredItems kind description.isSome) :
    (fields ((some .name, name.tree) :: Quoted.trees description ++ items.trees)).Nodup := by
  rw [fields_append, fields_some]
  cases description with
  | none => rcases items.fields_trees with h | ⟨_, h⟩ <;> rw [h, Quoted.trees] <;> decide
  | some quoted =>
    rcases items.fields_trees with h | ⟨h, _⟩
    · rw [h, Quoted.trees, fields_some]
      decide
    · cases h

/-- The keyword of a nested declaration is told from all others, and leads to its kind. -/
theorem nested_keyword {kind inner : Kind} {keyword : String}
    (h : (keyword, inner) ∈ Declaration.nested kind) (pos : Nat) (rest : List Char) :
    Heads (keyword.toList ++ ' ' :: rest) ∧ OneLine keyword.toList ∧
    eatWord? "description".toList ⟨pos, keyword.toList ++ ' ' :: rest⟩ = none ∧
    ∃ pos', ((Declaration.nested kind).findSome? fun (word, found) =>
      (eatWord? word.toList ⟨pos, keyword.toList ++ ' ' :: rest⟩).map fun rest => (found, rest)) =
        some (inner, ⟨pos', ' ' :: rest⟩) := by
  unfold Declaration.nested at h
  split at h
  all_goals simp only [List.mem_cons, Prod.mk.injEq, List.not_mem_nil, or_false] at h
  · rcases h with ⟨rfl, rfl⟩ | ⟨rfl, rfl⟩ | ⟨rfl, rfl⟩ <;>
      exact ⟨.of_part rfl, by decide, rfl, _, rfl⟩
  · rcases h with ⟨rfl, rfl⟩ | ⟨rfl, rfl⟩ | ⟨rfl, rfl⟩ <;>
      exact ⟨.of_part rfl, by decide, rfl, _, rfl⟩
  all_goals
    obtain ⟨rfl, rfl⟩ := h
    exact ⟨.of_part rfl, by decide, rfl, _, rfl⟩

def declaredText (name : Name) (description : Option Quoted) {kind : Kind} {described : Bool}
    (items : DeclaredItems kind described) : List Char :=
  ' ' :: (name.print ++ (Quoted.print description ++ items.colon))

theorem declaredText_oneLine (name : Name) (description : Option Quoted) {kind : Kind}
    {described : Bool} (items : DeclaredItems kind described) :
    OneLine (declaredText name description items) := by
  refine .cons (by decide) ((Name.oneLine name).append ((Quoted.oneLine description).append ?_))
  have hc : OneLine [':'] := by decide
  cases items with
  | nil => exact .of_forall nofun
  | description => exact hc
  | nested => exact hc

theorem DeclaredItems.map_child {kind : Kind} {described : Bool}
    (items : DeclaredItems kind described) (number : Nat) :
    (items.items layout number).map Item.child = items.trees := by
  match items with
  | .nil => rfl
  | .description value rest =>
    rw [DeclaredItems.items, List.map_cons, rest.map_child, DeclaredItems.trees]
  | .nested keyword inner h item rest =>
    rw [DeclaredItems.items, List.map_cons, rest.map_child, DeclaredItems.trees]

theorem DeclaredItems.colon_cases {kind : Kind} {described : Bool}
    (items : DeclaredItems kind described) (layout : Layout) :
    items.colon = [] ∧ items.items layout 0 = [] ∨
      items.colon = [':'] ∧ items.items layout 0 ≠ [] := by
  cases items with
  | nil => exact .inl ⟨rfl, rfl⟩
  | description value rest => exact .inr ⟨rfl, by rw [DeclaredItems.items]; simp⟩
  | nested keyword inner h item rest => exact .inr ⟨rfl, by rw [DeclaredItems.items]; simp⟩

/-- A declaration whose items fit into its block is read. -/
theorem declaration_print (hb : Below header layout after) (name : Name)
    (description : Option Quoted) {kind : Kind} (items : DeclaredItems kind description.isSome)
    (hi : ∀ item ∈ items.items layout 0, item.Fits (.declaration kind) layout.margin)
    (hs : Shown (linesOf layout.margin (items.items layout 0)) lines)
    (hf : lines.length < fuel) :
    Takes (Declaration.declaration (blockItems fuel none) header kind
        ⟨pos, declaredText name description items⟩) (lines ++ after) after
      (Declared.mk name description items).tree := by
  have hc := items.colon_cases layout
  have hq : (Quoted.print description ++ items.colon).head?.any isNamePart = false := by
    cases description with
    | none => rcases hc with ⟨hc, _⟩ | ⟨hc, _⟩ <;> rw [hc] <;> rfl
    | some quoted => rfl
  have hi' : items.colon.head?.any Text.isIndent = false := by
    rcases hc with ⟨hc, _⟩ | ⟨hc, _⟩ <;> rw [hc] <;> rfl
  refine .gives_bind (identifier_print _ name hq) fun pos₁ => ?_
  refine .gives_bind (description?_print description (hc.imp And.left And.left)) fun pos₂ => ?_
  dsimp only
  rw [skipBlanks_of_head hi', ← Quoted.trees_eq]
  have hk := items.once name
  rcases hc with ⟨hc, hn⟩ | ⟨hc, hn⟩
  · have ht : items.trees = [] := by
      rw [← @DeclaredItems.map_child layout, hn]
      rfl
    rw [hn] at hs
    rw [ht] at hk
    cases hs
    rw [hc, Declared.tree, ht]
    exact .inline_bind rfl (.once hk)
  · rw [hc]
    refine .inline_bind rfl ((hasBlock_print hb hn hi hs).bind ?_)
    rw [if_pos rfl]
    refine (block_print hb hi hs hf).bind ?_
    rw [items.map_child]
    exact .once hk

theorem description_fits (value : FieldValue) (kind : Kind) :
    Item.Fits ⟨"description:".toList ++ value.head, value.lines (layout.inside number).margin,
      (some .description, value.tree)⟩ (.declaration kind) layout.margin where
  heads := .of_part rfl
  notElse := nofun
  oneLine := .append (by decide) value.head_oneLine
  below := value.lines_oneLine
  reads header lines after fuel hg hh hs hf ha := by
    rw [blockItem, Declaration.declarationItem, Line.scan, hh]
    exact (fieldValue_print (.inside number hg ha.ends) value hs).bind (.pure _)

theorem nested_fits {kind inner : Kind} {keyword : String}
    (h : (keyword, inner) ∈ Declaration.nested kind) (name : Name) (description : Option Quoted)
    (items : DeclaredItems inner description.isSome)
    (hi : ∀ item ∈ items.items (layout.inside number) 0,
      item.Fits (.declaration inner) (layout.inside number).margin) :
    Item.Fits ⟨(Declared.mk name description items).head keyword,
      (Declared.mk name description items).lines (layout.inside number),
      (none, (Declared.mk name description items).tree)⟩ (.declaration kind) layout.margin where
  heads := (nested_keyword h 0 _).1
  notElse := nofun
  oneLine := (nested_keyword h 0 []).2.1.append (declaredText_oneLine name description items)
  below := by
    rw [Declared.lines]
    exact linesOf_oneLine hi
  reads header lines after fuel hg hh hs hf ha := by
    obtain ⟨_, _, hd, pos, hn⟩ := nested_keyword h header.bodyStart
      (name.print ++ (Quoted.print description ++ items.colon))
    rw [Declared.lines] at hs
    rw [blockItem, Declaration.declarationItem, Line.scan, hh, Declared.head, hd]
    dsimp only
    rw [hn]
    exact (declaration_print (.inside number hg ha.ends) name description items hi hs hf).bind
      (.pure _)

theorem DeclaredItems.fits {kind : Kind} {described : Bool} (items : DeclaredItems kind described)
    (layout : Layout) (number : Nat) :
    ∀ item ∈ items.items layout number, item.Fits (.declaration kind) layout.margin := by
  match items with
  | .nil =>
    rw [DeclaredItems.items]
    exact nofun
  | .description value rest =>
    rw [DeclaredItems.items]
    exact List.forall_mem_cons.2 ⟨description_fits value kind, rest.fits layout (number + 2)⟩
  | .nested keyword inner h (.mk word quoted items) rest =>
    rw [DeclaredItems.items]
    refine List.forall_mem_cons.2 ⟨?_, rest.fits layout (number + 2)⟩
    exact nested_fits h word quoted items (items.fits (layout.inside number) 0)

end Declarations

section Commands

theorem CommandItem.head_oneLine (item : CommandItem) : OneLine item.head := by
  cases item with
  | title value => exact .append (by decide) value.head_oneLine
  | parameters list => exact (by decide : OneLine "Parameters:".toList)
  | body sql => exact (by decide : OneLine "SQL:".toList)

theorem CommandItem.lines_oneLine (item : CommandItem) :
    ∀ content ∈ item.lines layout, OneLine content := by
  cases item with
  | title value => exact value.lines_oneLine
  | parameters list => exact list.lines_oneLine
  | body sql => exact sql.oneLine (layout.blank [])

theorem CommandItem.fits (item : CommandItem) (layout : Layout) (number : Nat) :
    (item.item layout number).Fits .command layout.margin where
  heads := by cases item <;> exact .of_part rfl
  notElse := nofun
  oneLine := item.head_oneLine
  below := item.lines_oneLine
  reads header lines after fuel hg hh hs hf ha := by
    have hb := Below.inside number hg ha.ends
    rw [blockItem, Declaration.commandItem, Line.scan, hh]
    cases item with
    | title value => exact (fieldValue_print hb value hs).bind (.pure _)
    | parameters list => exact .inline_bind rfl ((parameters_print hb list hs hf).bind (.pure _))
    | body sql => exact .inline_bind rfl ((verbatim_print hb sql hs).bind (.pure _))

def commandText : Option Basic → List Char
  | none => [':']
  | some title => ' ' :: (title.print ++ [':'])

theorem Command.head_eq (command : Command) :
    command.head = "Command".toList ++ commandText command.title := by
  cases h : command.title <;> rw [Command.head, h] <;> rfl

theorem Command.items_ne_nil (command : Command) : command.items ≠ [] := by
  intro h
  have hb := command.bodied
  rw [h] at hb
  cases ht : command.title <;> rw [ht] at hb <;> cases hb

theorem Command.items_fit (command : Command) (layout : Layout) :
    ∀ item ∈ numbered (CommandItem.item layout) 0 command.items,
      item.Fits .command layout.margin :=
  forall_mem_numbered (fun number item _ => CommandItem.fits item layout number) 0

theorem commandTitle_print (title : Option Basic) :
    (match (skipBlanks ⟨pos, commandText title⟩).eat? [':'] with
    | some rest => do
      rest.finish
      return []
    | none => do
      let (title, rest) ← Expression.basic (skipBlanks ⟨pos, commandText title⟩)
      rest.blockColon
      return [(some Field.title, title)]) = (pure (titleTrees title) : Plain _) := by
  cases title with
  | none => rfl
  | some title =>
    have hi := title.head_not_indent [':']
    have hc : eat? [':'] ⟨pos + 1, title.print ++ [':']⟩ = none :=
      eat?_of_head (title.head_ne_colon [':'])
    obtain ⟨pos', hg⟩ : Gives (Expression.basic ⟨pos + 1, title.print ++ [':']⟩) _ _ :=
      basic_print title ⟨rfl, by simp⟩
    rw [commandText, skipBlanks_space hi, hc]
    dsimp only
    rw [hg]
    rfl

theorem command_print (hb : Below header layout after) (command : Command)
    (hs : Shown (command.lines layout) lines) (hf : lines.length < fuel) :
    Takes (Declaration.command (blockItems fuel none) header ⟨pos, commandText command.title⟩)
      (lines ++ after) after command.tree := by
  have hi := command.items_fit layout
  refine .inline_bind (commandTitle_print command.title) ?_
  refine (hasBlock_print hb (numbered_ne_nil command.items_ne_nil 0) hi hs).bind ?_
  rw [if_pos rfl]
  refine (block_print hb hi hs hf).bind ?_
  rw [map_child_numbered CommandItem.child fun _ _ => rfl]
  refine .spans_bind (.note_bind (repeatedFields_eq_nil _ command.once fun _ _ => rfl) ?_)
  rw [command.titled, command.bodied]
  exact .inline rfl

end Commands

section Metadata

/-- A field of the archive is told from the other items by its name. -/
theorem archiveField_print {field : Field} (h : field ∈ Field.archiveInfo) (pos : Nat)
    (rest : List Char) :
    Heads (field.label.toList ++ ':' :: rest) ∧ OneLine field.label.toList ∧
    eatWord? "Schema".toList ⟨pos, field.label.toList ++ ':' :: rest⟩ = none ∧
    eatWord? "Command".toList ⟨pos, field.label.toList ++ ':' :: rest⟩ = none ∧
    ∃ pos', Declaration.archiveField? ⟨pos, field.label.toList ++ ':' :: rest⟩ =
      some (field, ⟨pos', rest⟩) := by
  simp only [Field.archiveInfo, List.mem_cons, List.not_mem_nil, or_false] at h
  rcases h with rfl | rfl | rfl | rfl | rfl | rfl | rfl <;>
    exact ⟨.of_part rfl, by decide, rfl, rfl, _, rfl⟩

theorem MetadataItem.heads (item : MetadataItem) : Heads item.head := by
  cases item with
  | info field h value => exact (archiveField_print h 0 _).1
  | schema declared => cases declared; exact .of_part rfl
  | command given => rw [MetadataItem.head, Command.head_eq]; exact .of_part rfl

theorem MetadataItem.head_oneLine (item : MetadataItem) : OneLine item.head := by
  cases item with
  | info field h value =>
    exact (archiveField_print h 0 []).2.1.append (.cons (by decide) value.head_oneLine)
  | schema declared =>
    cases declared with
    | mk name quoted items => exact .append (by decide) (declaredText_oneLine name quoted items)
  | command given =>
    rw [MetadataItem.head, Command.head_eq]
    refine .append (by decide) ?_
    cases given.title with
    | none => exact (by decide : OneLine [':'])
    | some title => exact .cons (by decide) (title.oneLine.append (by decide))

theorem MetadataItem.lines_oneLine (item : MetadataItem) :
    ∀ content ∈ item.lines layout, OneLine content := by
  cases item with
  | info field h value => exact value.lines_oneLine
  | schema declared =>
    cases declared with
    | mk name quoted items =>
      rw [MetadataItem.lines, Declared.lines]
      exact linesOf_oneLine (items.fits layout 0)
  | command given => exact linesOf_oneLine (given.items_fit layout)

theorem MetadataItem.fits (item : MetadataItem) (layout : Layout) (number : Nat) :
    (item.item layout number).Fits .metadata layout.margin where
  heads := item.heads
  notElse := nofun
  oneLine := item.head_oneLine
  below := item.lines_oneLine
  reads header lines after fuel hg hh hs hf ha := by
    have hb := Below.inside number hg ha.ends
    rw [blockItem, Declaration.metadataItem, Line.scan, hh]
    cases item with
    | info field h value =>
      obtain ⟨_, _, hs₁, hc, pos, hi⟩ := archiveField_print h header.bodyStart value.head
      dsimp only [MetadataItem.item, MetadataItem.head]
      rw [hs₁, hc, hi]
      exact (fieldValue_print hb value hs).bind (.pure _)
    | schema declared =>
      cases declared with
      | mk name quoted items =>
        dsimp only [MetadataItem.item, MetadataItem.lines] at hs
        rw [Declared.lines] at hs
        exact (declaration_print hb name quoted items (items.fits _ 0) hs hf).bind (.pure _)
    | command given =>
      dsimp only [MetadataItem.item, MetadataItem.head]
      have hn : eatWord? "Schema".toList
          ⟨header.bodyStart, "Command".toList ++ commandText given.title⟩ = none := rfl
      have ht : (commandText given.title).head?.any isNamePart = false := by
        cases given.title <;> rfl
      rw [Command.head_eq, hn, eatWord?_append ht]
      exact (command_print hb given hs hf).bind (.pure _)

theorem MetadataItem.field_mem (items : List MetadataItem) (field : Field)
    (h : field ∈ fields (items.map MetadataItem.child)) : field ∈ Field.archiveInfo := by
  obtain ⟨child, hc, hf⟩ := List.mem_filterMap.1 h
  obtain ⟨item, _, rfl⟩ := List.mem_map.1 hc
  cases item with
  | info other ho value => exact Option.some.inj hf ▸ ho
  | schema declared => cases hf
  | command given => cases hf

theorem Metadata.items_fit (metadata : Metadata) (layout : Layout) :
    ∀ item ∈ numbered (MetadataItem.item layout) 0 metadata.items,
      item.Fits .metadata layout.margin :=
  forall_mem_numbered (fun number item _ => MetadataItem.fits item layout number) 0

theorem metadata_print (hb : Below header layout after) (metadata : Metadata) (connection : Node)
    (hs : Shown (metadata.lines layout) lines) (hf : lines.length < fuel) :
    Takes (Declaration.metadata (blockItems fuel none) header connection) (lines ++ after) after
      (branch .siardMetadata
        ((some .connection, connection) :: metadata.items.map MetadataItem.child)) := by
  have hi := metadata.items_fit layout
  refine (hasBlock_print hb (numbered_ne_nil metadata.nonempty 0) hi hs).bind ?_
  rw [if_pos rfl]
  refine (block_print hb hi hs hf).bind ?_
  rw [map_child_numbered MetadataItem.child fun _ _ => rfl]
  refine .once ?_
  rw [fields_some, List.nodup_cons]
  exact ⟨fun h => absurd (MetadataItem.field_mem _ _ h) (by decide), metadata.once⟩

end Metadata

end ArchiveScript.Printing
