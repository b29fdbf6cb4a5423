import ArchiveScript.Proofs.Printing.Declaration

/-! # Reading statements back

Each statement is read by its keyword, with the blocks that it owns. Words like `connection` and
`query` open the longer forms of an expression only where a printed expression does not have
them.
-/

namespace ArchiveScript.Printing

open Node Scan Statement

variable {pos fuel number : Nat} {layout : Layout} {header : Line} {lines after : List Line}

section Properties

theorem property_print (hb : Below header layout after) (property : Property)
    (hh : header.body = property.head) (hs : Shown (property.value.lines layout.margin) lines) :
    Takes (Statement.property header) (lines ++ after) after
      property.child.2 := by
  obtain ⟨key, value⟩ := property
  have hp : ∀ c, isNamePart c = true → isPropertyPart c = true := fun c hc => by
    rw [isPropertyPart, hc]
    rfl
  rw [Statement.property, Line.scan, hh, Property.head]
  cases value with
  | basic value =>
    cases hs
    dsimp only
    rw [nameOf?_print hp key rfl]
    exact .inline_bind rfl ((Takes.finish (basic_space_print_end value)).bind (.inline rfl))
  | raw value =>
    dsimp only
    rw [nameOf?_print hp key rfl]
    exact .inline_bind rfl (.inline_bind rfl ((verbatim_print hb value hs).bind (.inline rfl)))

theorem Property.fits (property : Property) (layout : Layout) (number : Nat) :
    (property.item layout number).Fits .properties layout.margin where
  heads := property.key.heads _
  notElse := nofun
  oneLine := by
    refine (Key.oneLine property.key).append ?_
    cases property.value with
    | basic value => exact .cons (by decide) (.cons (by decide) (.cons (by decide) value.oneLine))
    | raw value => exact (by decide : OneLine [':'])
  below := property.value.lines_oneLine
  reads header lines after fuel hg hh hs hf ha :=
    (property_print (.inside number hg ha.ends) property hh hs).bind (.pure _)

theorem properties_fit (properties : List Property) (layout : Layout) :
    ∀ item ∈ numbered (Property.item layout) 0 properties, item.Fits .properties layout.margin :=
  forall_mem_numbered (fun number property _ => Property.fits property layout number) 0

end Properties

section Sources

theorem eatWord?_eq_some {word : List Char} {s t : Scan} (h : s.eatWord? word = some t) :
    s.rest = word ++ t.rest ∧ t.rest.head?.any isNamePart = false := by
  rw [eatWord?, Option.ite_none_right_eq_some, atWord, Bool.and_eq_true] at h
  obtain ⟨⟨hp, hn⟩, ht⟩ := h
  obtain rfl := Option.some.inj ht
  obtain ⟨rest, hr⟩ := List.isPrefixOf_iff_prefix.1 hp
  rw [rest_skip, ← hr, List.drop_left]
  rw [← hr, List.drop_left] at hn
  exact ⟨rfl, by simpa using hn⟩

/-- Only an operation can follow a word in an expression. -/
theorem Basic.after_word (basic : Basic) {c : Char} {cs : List Char} {t : Scan}
    (hc : isNameStart c = true) (h : eatWord? (c :: cs) ⟨pos, basic.print⟩ = some t) :
    t.rest = [] ∨ t.rest.head? = some '.' := by
  obtain ⟨hr, hn⟩ := eatWord?_eq_some h
  have hr : basic.print = c :: (cs ++ t.rest) := hr
  rcases basic.print_cases with ⟨d, ds, hp, hd⟩ | hp
  · rw [hr] at hp
    obtain ⟨rfl, _⟩ := List.cons.inj hp
    rcases hd with rfl | hd
    · exact absurd hc (by decide)
    · exact absurd hd (not_digit_of_isNameStart hc)
  · cases ht : t.rest with
    | nil => exact .inl rfl
    | cons d ds =>
      rw [ht] at hn hr
      rcases hp d (by rw [hr]; simp) with hd | rfl
      · exact absurd hd (by simpa using hn)
      · exact .inr rfl

theorem eatWords?_basic {first second : String} {c : Char} {cs : List Char} (basic : Basic)
    (hf : first.toList = c :: cs) (hc : isNameStart c = true) :
    eatWords? first second ⟨pos, basic.print⟩ = none := by
  rw [eatWords?, hf]
  cases he : eatWord? (c :: cs) ⟨pos, basic.print⟩ with
  | none => rfl
  | some t =>
    have hi : t.rest.head?.any Text.isIndent = false := by
      rcases basic.after_word hc he with h | h <;> rw [h] <;> rfl
    exact if_neg (by simp [hi])

theorem eatQuery?_basic (basic : Basic) : eatQuery? ⟨pos, basic.print⟩ = none := by
  rw [eatQuery?]
  cases he : eatWord? "query".toList ⟨pos, basic.print⟩ with
  | none => rfl
  | some t =>
    obtain ⟨pos', rest⟩ := t
    have hr : rest.head?.any Text.isIndent = false ∧ rest.head? ≠ some '(' := by
      rcases basic.after_word rfl he with h | h <;> simp only at h <;> rw [h] <;> decide
    have hs : skipBlanks ⟨pos', rest⟩ = ⟨pos', rest⟩ := skipBlanks_of_head hr.1
    have hq : eat? ['('] ⟨pos', rest⟩ = none := eat?_of_head hr.2
    dsimp only [bind, Option.bind]
    rw [hs, hq]

theorem verbatim_pair_takes {kind : Kind} {start stop : Nat} {first second : Option Field}
    {node block : Node} (ht : Takes (Verbatim.block header) lines after block) :
    Takes (do
      let text ← Verbatim.block header
      Builder.spanning kind start stop [(first, node), (second, text)]) lines after
      (branch kind [(first, node), (second, block)]) :=
  ht.bind (.inline rfl)

theorem verbatim_pair_print {kind : Kind} {start stop : Nat} {first second : Option Field}
    {node : Node} (hb : Below header layout after) (raw : Raw)
    (hs : Shown (raw.print layout.margin) lines) :
    Takes (do
      let text ← Verbatim.block header
      Builder.spanning kind start stop [(first, node), (second, text)]) (lines ++ after) after
      (branch kind [(first, node), (second, raw.tree)]) :=
  verbatim_pair_takes (verbatim_print hb raw hs)

theorem connection_print (hb : Below header layout after) (url : Basic)
    (properties : List Property) (start : Nat) (hn : properties ≠ [])
    (hs : Shown (linesOf layout.margin (numbered (Property.item layout) 0 properties)) lines)
    (hf : lines.length < fuel) :
    Takes (Statement.connection (blockItems fuel none) header start
        ⟨pos, ' ' :: (url.print ++ " with:".toList)⟩) (lines ++ after) after
      (Source.connectionWith url properties hn).tree := by
  have hi := properties_fit properties layout
  refine .gives_bind (basic_space_print url ⟨rfl, by simp⟩) fun pos' => ?_
  refine .inline_bind rfl ((hasBlock_print hb (numbered_ne_nil hn 0) hi hs).bind ?_)
  rw [if_pos rfl]
  refine (block_print hb hi hs hf).bind (.spans_bind ?_)
  rw [map_child_numbered Property.child fun _ _ => rfl]
  exact .inline_bind rfl (.inline rfl)

/-- An expression is not taken for one of the longer forms. -/
theorem expression_basic_print (value : Basic) :
    Takes (Statement.expression (blockItems fuel none) header ⟨pos, ' ' :: value.print⟩) lines lines
      value.tree := by
  have hc : eatWords? "connection" "to" ⟨pos + 1, value.print⟩ = none :=
    eatWords?_basic value rfl rfl
  have he : eatWords? "execute" "using" ⟨pos + 1, value.print⟩ = none :=
    eatWords?_basic value rfl rfl
  rw [Statement.expression, skipBlanks_space value.print_not_indent]
  dsimp only
  rw [hc, eatQuery?_basic value, he]
  exact .finish (basic_print_end value)

theorem expression_print (hb : Below header layout after) (source : Source)
    (hs : Shown (source.lines layout) lines) (hf : lines.length < fuel) :
    Takes (Statement.expression (blockItems fuel none) header ⟨pos, ' ' :: source.head⟩)
      (lines ++ after) after source.tree := by
  cases source with
  | basic value =>
    cases hs
    exact expression_basic_print value
  | connection url =>
    cases hs
    refine Takes.gives_bind (basic_space_print_end url) fun pos' => ?_
    exact .inline_bind rfl (.inline rfl)
  | connectionWith url properties hn => exact connection_print hb url properties _ hn hs hf
  | query database sql =>
    refine Takes.gives_bind (identifier_start_print _ database rfl) fun pos' => ?_
    exact .inline_bind rfl (verbatim_pair_print hb sql hs)
  | scriptResult interpreter script =>
    refine Takes.gives_bind (basic_space_print interpreter ⟨rfl, by simp⟩) fun pos' => ?_
    exact .inline_bind rfl (verbatim_pair_print hb script hs)

end Sources

section Simple

theorem set_print (hb : Below header layout after) (name : Name) (source : Source)
    (hs : Shown (source.lines layout) lines) (hf : lines.length < fuel) :
    Takes (Statement.set (blockItems fuel none) header
        ⟨pos, ' ' :: (name.print ++ " = ".toList ++ source.head)⟩) (lines ++ after) after
      (Simple.set name source).tree := by
  rw [List.append_assoc]
  refine .gives_bind (identifier_print _ name rfl) fun pos' => ?_
  exact Takes.bind (expression_print hb source hs hf) (.inline rfl)

theorem setRaw_takes {tree : Node} (name : Name) (block : BlockReader PlainReader Node)
    (topLevel : Bool) (hh : header.body = "Set ".toList ++ (name.print ++ [':']))
    (ht : Takes (Verbatim.block header) lines after tree) :
    Takes (Statement.statement block header topLevel) lines after
      (branch .set [(some .name, name.tree), (some .value, tree)]) := by
  rw [Statement.statement, Line.scan, hh]
  refine Takes.gives_bind (identifier_print _ name rfl) fun pos => ?_
  exact .inline_bind rfl (ht.bind (.inline rfl))

theorem log_takes {value : Basic} {code : List Char} (hw : value.Written code)
    (block : BlockReader PlainReader Node) (topLevel : Bool)
    (hh : header.body = "Log ".toList ++ code) :
    Takes (Statement.statement block header topLevel) lines lines
      (branch .log [(some .value, value.tree)]) := by
  rw [Statement.statement, Line.scan, hh]
  exact Takes.bind (.finish hw.gives_space_end) (.inline rfl)

theorem logRaw_takes {tree : Node} (block : BlockReader PlainReader Node) (topLevel : Bool)
    (hh : header.body = "Log:".toList)
    (ht : Takes (Verbatim.block header) lines after tree) :
    Takes (Statement.statement block header topLevel) lines after
      (branch .log [(some .value, tree)]) := by
  rw [Statement.statement, Line.scan, hh]
  exact Takes.inline_bind rfl (ht.bind (.inline rfl))

theorem assertion_print (condition : Comparison) :
    Takes (Statement.assertion header ⟨pos, ' ' :: condition.print⟩) lines lines
      (Simple.assert condition).tree := by
  obtain ⟨pos', hc⟩ :
      Gives (Expression.comparison ⟨pos, ' ' :: (condition.print ++ [])⟩) condition.tree [] :=
    comparison_print condition ⟨rfl, nofun⟩
  rw [List.append_nil] at hc
  refine .inline ?_
  rw [hc]
  rfl

theorem output_print (database : Name) (file : Basic) :
    Takes (Statement.siard (blockItems fuel none) header
        ⟨pos, " output ".toList ++ (database.print ++ " to ".toList ++ file.print)⟩) lines lines
      (Simple.output database file).tree := by
  rw [List.append_assoc]
  obtain ⟨pos₁, hd⟩ := @identifier_print (pos + 7) (" to ".toList ++ file.print)
    "a connection variable" database rfl
  obtain ⟨pos₂, hf⟩ := @basic_space_print_end (pos₁ + 3) file
  exact Takes.inline_ok hd (.inline_ok rfl (.inline_ok hf (.inline rfl)))

theorem simple_print (hb : Below header layout after) (simple : Simple)
    (hh : header.body = simple.head) (hs : Shown (simple.lines layout) lines)
    (hf : lines.length < fuel) (topLevel : Bool) :
    Takes (Statement.statement (blockItems fuel none) header topLevel) (lines ++ after) after
      simple.tree := by
  rw [Statement.statement, Line.scan, hh]
  cases simple with
  | nop =>
    cases hs
    refine .inline ?_
    rw [hh]
    rfl
  | set name source => exact set_print hb name source hs hf
  | setRaw name value =>
    have ht := setRaw_takes name (blockItems fuel none) topLevel hh (verbatim_print hb value hs)
    rw [Statement.statement, Line.scan, hh] at ht
    exact ht
  | executeUsing interpreter script =>
    refine Takes.gives_bind (basic_space_print interpreter ⟨rfl, by simp⟩) fun pos => ?_
    exact .inline_bind rfl (verbatim_pair_print hb script hs)
  | executeSql database sql =>
    refine Takes.inline_bind rfl ?_
    refine .gives_bind (identifier_print _ database rfl) fun pos => ?_
    exact .inline_bind rfl (verbatim_pair_print hb sql hs)
  | assert condition =>
    cases hs
    exact assertion_print condition
  | log value =>
    cases value with
    | basic value =>
      cases hs
      have ht := @log_takes header after _ _ value.written_print (blockItems fuel none) topLevel hh
      rw [Statement.statement, Line.scan, hh] at ht
      exact ht
    | raw value =>
      have ht := logRaw_takes (blockItems fuel none) topLevel hh (verbatim_print hb value hs)
      rw [Statement.statement, Line.scan, hh] at ht
      exact ht
  | metadata database contents =>
    refine Takes.inline_bind rfl ?_
    refine .gives_bind (identifier_print _ database rfl) fun pos => ?_
    exact .inline_bind rfl (metadata_print hb contents _ hs hf)
  | output database file =>
    cases hs
    exact output_print database file

theorem Source.head_oneLine (source : Source) : OneLine source.head := by
  cases source with
  | basic value => exact value.oneLine
  | connection url => exact .append (by decide) url.oneLine
  | connectionWith url properties h =>
    exact .append (by decide) (url.oneLine.append (by decide))
  | query database sql => exact .append (by decide) ((Name.oneLine database).append (by decide))
  | scriptResult interpreter script =>
    exact .append (by decide) (interpreter.oneLine.append (by decide))

theorem Source.lines_oneLine (source : Source) :
    ∀ content ∈ source.lines layout, OneLine content := by
  cases source with
  | basic value => exact nofun
  | connection url => exact nofun
  | connectionWith url properties h => exact linesOf_oneLine (properties_fit properties layout)
  | query database sql => exact sql.oneLine (layout.blank [])
  | scriptResult interpreter script => exact script.oneLine (layout.blank [])

theorem Simple.head_oneLine (simple : Simple) : OneLine simple.head := by
  cases simple with
  | nop => exact (by decide : OneLine "Nop".toList)
  | set name source =>
    exact .append (by decide) (((Name.oneLine name).append (by decide)).append source.head_oneLine)
  | setRaw name value => exact .append (by decide) ((Name.oneLine name).append (by decide))
  | executeUsing interpreter script =>
    exact .append (by decide) (interpreter.oneLine.append (by decide))
  | executeSql database sql =>
    exact .append (by decide) ((Name.oneLine database).append (by decide))
  | assert condition => exact .append (by decide) condition.oneLine
  | log value =>
    cases value with
    | basic value => exact .append (by decide) value.oneLine
    | raw value => exact (by decide : OneLine "Log:".toList)
  | metadata database contents =>
    exact .append (by decide) ((Name.oneLine database).append (by decide))
  | output database file =>
    exact .append (by decide) (((Name.oneLine database).append (by decide)).append file.oneLine)

theorem Simple.lines_oneLine (simple : Simple) :
    ∀ content ∈ simple.lines layout, OneLine content := by
  cases simple with
  | nop => exact nofun
  | set name source => exact source.lines_oneLine
  | setRaw name value => exact value.oneLine (layout.blank [])
  | executeUsing interpreter script => exact script.oneLine (layout.blank [])
  | executeSql database sql => exact sql.oneLine (layout.blank [])
  | assert condition => exact nofun
  | log value => exact value.lines_oneLine
  | metadata database contents => exact linesOf_oneLine (contents.items_fit layout)
  | output database file => exact nofun

end Simple

section Blocks

/-- The line of a statement carries an item, which is not the other branch of a conditional. -/
theorem Stmt.head_begins (stmt : Stmt) :
    Heads stmt.head ∧ ∀ pos, eatWord? "Else".toList ⟨pos, stmt.head⟩ = none := by
  cases stmt with
  | simple statement =>
    cases statement with
    | log value => cases value <;> exact ⟨.of_part rfl, fun _ => rfl⟩
    | _ => exact ⟨.of_part rfl, fun _ => rfl⟩
  | _ => exact ⟨.of_part rfl, fun _ => rfl⟩

theorem Block.items_ne_nil (block : Block) (number : Nat) : block.items layout number ≠ [] := by
  cases block <;> rw [Block.items] <;> exact List.cons_ne_nil _ _

theorem Block.map_child (block : Block) (number : Nat) :
    (block.items layout number).map Item.child = block.trees := by
  match block with
  | .one stmt => rw [Block.items, Block.trees]; rfl
  | .cons stmt rest => rw [Block.items, List.map_cons, rest.map_child, Block.trees]

theorem statements_print (hb : Below header layout after) (block : Block)
    (hi : ∀ item ∈ block.items layout 0, item.Fits .statements layout.margin)
    (hs : Shown (linesOf layout.margin (block.items layout 0)) lines)
    (hf : lines.length < fuel) :
    Takes (Statement.statements (blockItems fuel none) header) (lines ++ after) after
      (branch .statementBlock block.trees) := by
  refine (hasBlock_print hb (block.items_ne_nil 0) hi hs).bind ?_
  rw [if_pos rfl]
  refine (block_print hb hi hs hf).bind (.spans_bind ?_)
  rw [block.map_child]
  exact .inline rfl

/-- No other branch is read where none follows. -/
theorem otherwise_none (ha : Follows .statements header.indent after) :
    Takes (Statement.otherwise (blockItems fuel none) header) after after [] := by
  cases after with
  | nil => rfl
  | cons next rest =>
    refine .skipIdle_bind (ha.ends next rfl).1 (.peek_bind ?_)
    dsimp only
    split
    · rename_i hi
      rw [ha.notElse rfl next rfl hi]
      exact .pure []
    · exact .pure []

theorem otherwise_print {next : Line} (hn : next.isIdle = false) (hi : next.indent = header.indent)
    (hh : next.body = "Else:".toList) (hb : Below next layout after) (block : Block)
    (hf : ∀ item ∈ block.items layout 0, item.Fits .statements layout.margin)
    (hs : Shown (linesOf layout.margin (block.items layout 0)) lines)
    (hl : lines.length < fuel) :
    Takes (Statement.otherwise (blockItems fuel none) header) (next :: lines ++ after) after
      [(some .alternative, branch .statementBlock block.trees)] := by
  refine .skipIdle_bind hn (.peek_bind ?_)
  dsimp only
  rw [if_pos hi, Line.scan, hh]
  exact .goto_bind (.inline_bind rfl ((statements_print hb block hf hs hl).bind (.pure _)))

theorem conditional_print {condition : Comparison} {consequent : Block} {middle : List Line}
    {others : List Child} (hb : Below header layout middle)
    (hi : ∀ item ∈ consequent.items layout 0, item.Fits .statements layout.margin)
    (hs : Shown (linesOf layout.margin (consequent.items layout 0)) lines)
    (hf : lines.length < fuel)
    (ho : Takes (Statement.otherwise (blockItems fuel none) header) middle after others) :
    Takes (Statement.conditional (blockItems fuel none) header
        ⟨pos, ' ' :: (condition.print ++ [':'])⟩) (lines ++ middle) after
      (branch .conditional ((some .condition, condition.tree) ::
        (some .consequent, branch .statementBlock consequent.trees) :: others)) := by
  refine .gives_bind (comparison_print condition ⟨rfl, by simp⟩) fun pos' => ?_
  exact .inline_bind rfl ((statements_print hb consequent hi hs hf).bind (ho.bind (.inline rfl)))

/-- A conditional is read with its other branch, whose line ends the first one. -/
theorem alternative_print (hg : header.margin = layout.margin) {condition : Comparison}
    {consequent otherwise : Block}
    (hi : ∀ item ∈ consequent.items (layout.inside number) 0,
      item.Fits .statements (layout.inside number).margin)
    (ho : ∀ item ∈ otherwise.items (layout.inside (number + 1)) 0,
      item.Fits .statements (layout.inside (number + 1)).margin)
    (hs : Shown ((Stmt.alternative condition consequent otherwise).lines layout number) lines)
    (hf : lines.length < fuel) (he : Ends layout.margin.length after) :
    Takes (Statement.conditional (blockItems fuel none) header
        ⟨pos, ' ' :: (condition.print ++ [':'])⟩) (lines ++ after) after
      (Stmt.alternative condition consequent otherwise).tree := by
  rw [Stmt.lines] at hs
  obtain ⟨first, second, rfl, hfirst, hsecond⟩ := hs.split
  cases hsecond with
  | @cons _ _ next below hnext hbelow =>
    obtain ⟨hm, hb, hd⟩ := hnext.item (layout.blank []) (.of_part rfl)
    have hn : next.indent = layout.margin.length := congrArg List.length hm
    have hx : next.indent = header.indent := congrArg List.length (hm.trans hg.symm)
    have hends : Ends layout.margin.length (next :: below ++ after) := fun line hl => by
      obtain rfl := Option.some.inj hl
      exact ⟨hd, Nat.le_of_eq hn⟩
    rw [List.length_append, List.length_cons] at hf
    rw [List.append_assoc, Stmt.tree]
    refine conditional_print (.inside number hg hends) hi hfirst (by omega) ?_
    exact otherwise_print hd hx hb (.inside (number + 1) hm he) otherwise ho hbelow (by omega)

theorem moreNames_cons (name : Name) (more : List Name) :
    moreNames (name :: more) = ',' :: ' ' :: (name.print ++ moreNames more) := rfl

theorem moreNames_not_part (more : List Name) (rest : List Char) :
    (moreNames more ++ (" in ".toList ++ rest)).head?.any isNamePart = false := by
  cases more <;> rfl

theorem length_le_moreNames (more : List Name) : more.length ≤ (moreNames more).length := by
  induction more with
  | nil => exact Nat.le_refl 0
  | cons name more ih =>
    simp only [moreNames_cons, List.length_cons, List.length_append]
    omega

theorem moreVariables_print (more : List Name) {rest : List Char} {n : Nat}
    (hn : more.length ≤ n) :
    Gives (Statement.moreVariables n ⟨pos, moreNames more ++ (" in ".toList ++ rest)⟩)
      (more.map fun name => (none, name.tree)) ("in ".toList ++ rest) := by
  induction more generalizing pos n with
  | nil => cases n <;> exact ⟨_, rfl⟩
  | cons name more ih =>
    obtain ⟨n, rfl⟩ : ∃ m, n = m + 1 := ⟨n - 1, by simp at hn; omega⟩
    obtain ⟨pos₁, hf⟩ := @identifier_print (pos + 1) _ "a loop variable" name
      (moreNames_not_part more rest)
    obtain ⟨pos₂, hm⟩ := @ih pos₁ n (by simpa using hn)
    have hp : moreNames (name :: more) ++ (" in ".toList ++ rest) =
        ',' :: ' ' :: (name.print ++ (moreNames more ++ (" in ".toList ++ rest))) := by
      rw [moreNames_cons, List.cons_append, List.cons_append, List.append_assoc]
    rw [hp]
    exact Gives.bind hf (.bind hm ⟨pos₂, rfl⟩)

theorem forLoop_print (hb : Below header layout after) (first : Name) (more : List Name)
    (rows : Basic) (body : Block)
    (hi : ∀ item ∈ body.items layout 0, item.Fits .statements layout.margin)
    (hs : Shown (linesOf layout.margin (body.items layout 0)) lines)
    (hf : lines.length < fuel) :
    Takes (Statement.forLoop (blockItems fuel none) header
        ⟨pos, ' ' :: (first.print ++ (moreNames more ++
          (" in ".toList ++ (rows.print ++ [':']))))⟩) (lines ++ after) after
      (Stmt.forLoop first more rows body).tree := by
  have hl : more.length ≤ (moreNames more ++ (" in ".toList ++ (rows.print ++ [':']))).length := by
    rw [List.length_append]
    exact Nat.le_add_right_of_le (length_le_moreNames more)
  refine .gives_bind (identifier_print _ first (moreNames_not_part more _)) fun pos₁ => ?_
  refine .gives_bind (moreVariables_print more hl) fun pos₂ => ?_
  refine .spans_bind (.inline_bind rfl (.inline_bind rfl ?_))
  refine .gives_bind (basic_space_print rows ⟨rfl, by simp⟩) fun pos₃ => ?_
  refine .inline_bind rfl ((statements_print hb body hi hs hf).bind (.inline ?_))
  rw [Stmt.tree]
  rfl

theorem Stmt.head_oneLine (stmt : Stmt) : OneLine stmt.head := by
  cases stmt with
  | simple statement => exact statement.head_oneLine
  | forLoop first more rows body =>
    have hm : OneLine (moreNames more) := by
      induction more with
      | nil => exact .of_forall nofun
      | cons name more ih =>
        exact .cons (by decide) (.cons (by decide) ((Name.oneLine name).append ih))
    exact .append (by decide) ((Name.oneLine first).append
      (hm.append (.append (by decide) (rows.oneLine.append (by decide)))))
  | conditional condition consequent =>
    exact .append (by decide) (condition.oneLine.append (by decide))
  | alternative condition consequent otherwise =>
    exact .append (by decide) (condition.oneLine.append (by decide))

structure Stmt.Prints (stmt : Stmt) (layout : Layout) (number : Nat) : Prop where
  oneLine : ∀ content ∈ stmt.lines layout number, OneLine content
  reads : ∀ (topLevel : Bool) (header : Line) (lines after : List Line) (fuel : Nat),
    header.margin = layout.margin → header.body = stmt.head →
    Shown (stmt.lines layout number) lines → lines.length < fuel →
    Follows .statements layout.margin.length after →
    Takes (Statement.statement (blockItems fuel none) header topLevel) (lines ++ after) after
      stmt.tree

theorem Stmt.Prints.fits {stmt : Stmt} (h : stmt.Prints layout number) {kind : BlockKind}
    (hk : holdsStatements kind = true) :
    Item.Fits ⟨stmt.head, stmt.lines layout number, (none, stmt.tree)⟩ kind layout.margin where
  heads := stmt.head_begins.1
  notElse _ := stmt.head_begins.2
  oneLine := stmt.head_oneLine
  below := h.oneLine
  reads header lines after fuel hg hh hs hf ha := by
    have ht (topLevel : Bool) := h.reads topLevel header lines after fuel hg hh hs hf
      ⟨ha.ends, fun _ => ha.notElse hk⟩
    cases kind with
    | topLevel => exact (ht true).bind (.pure _)
    | statements => exact (ht false).bind (.pure _)
    | _ => cases hk

mutual

theorem Stmt.prints (stmt : Stmt) (layout : Layout) (number : Nat) :
    stmt.Prints layout number := by
  match stmt with
  | .simple statement =>
    refine ⟨?_, fun topLevel header lines after fuel hg hh hs hf ha => ?_⟩
    · rw [Stmt.lines]
      exact statement.lines_oneLine
    · rw [Stmt.lines] at hs
      rw [Stmt.tree]
      exact simple_print (.inside number hg ha.ends) statement hh hs hf topLevel
  | .forLoop first more rows body =>
    have hi := body.fits (layout.inside number) 0
    refine ⟨?_, fun topLevel header lines after fuel hg hh hs hf ha => ?_⟩
    · rw [Stmt.lines]
      exact linesOf_oneLine hi
    · rw [Stmt.lines] at hs
      rw [Statement.statement, Line.scan, hh]
      exact forLoop_print (.inside number hg ha.ends) first more rows body hi hs hf
  | .conditional condition consequent =>
    have hi := consequent.fits (layout.inside number) 0
    refine ⟨?_, fun topLevel header lines after fuel hg hh hs hf ha => ?_⟩
    · rw [Stmt.lines]
      exact linesOf_oneLine hi
    · have hn : header.indent = layout.margin.length := congrArg List.length hg
      rw [Stmt.lines] at hs
      rw [Statement.statement, Line.scan, hh, Stmt.tree]
      exact conditional_print (.inside number hg ha.ends) hi hs hf
        (otherwise_none (hn ▸ ha))
  | .alternative condition consequent otherwise =>
    have hi := consequent.fits (layout.inside number) 0
    have ho := otherwise.fits (layout.inside (number + 1)) 0
    refine ⟨?_, fun topLevel header lines after fuel hg hh hs hf ha => ?_⟩
    · rw [Stmt.lines]
      refine List.forall_mem_append.2 ⟨linesOf_oneLine hi, List.forall_mem_cons.2 ⟨?_, ?_⟩⟩
      · exact (margin_oneLine (layout.blank [])).append (by decide)
      · exact linesOf_oneLine ho
    · rw [Statement.statement, Line.scan, hh]
      exact alternative_print hg hi ho hs hf ha.ends

theorem Block.fits (block : Block) (layout : Layout) (number : Nat) :
    ∀ item ∈ block.items layout number, item.Fits .statements layout.margin := by
  match block with
  | .one stmt =>
    rw [Block.items]
    exact List.forall_mem_singleton.2 ((stmt.prints layout number).fits rfl)
  | .cons stmt rest =>
    rw [Block.items]
    exact List.forall_mem_cons.2
      ⟨(stmt.prints layout number).fits rfl, rest.fits layout (number + 2)⟩

end

end Blocks

end ArchiveScript.Printing
