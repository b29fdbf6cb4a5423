import ArchiveScript.Proofs.Script.BlockLikeness
import ArchiveScript.Script.Parse

/-! # Statements in two layouts

Statements and the blocks below them are read alike in two layouts, also if statements follow
them in one of the layouts only.
-/

namespace ArchiveScript

open Grammar
open Builder (fail leaf spanning spans)

variable {L : Likeness} {closing : List Line} {line line' : Line} {m m' r r' : Type → Type}
  {ν ν' : Type} [Builder m ν] [Builder m' ν'] [LineReader r m] [LineReader r' m']
  (T : LineSimulation L closing r r') {lines below : List Line} {held now : Held ν ν'}

namespace Statement

open Expression Scan

variable {s s' : Scan}

theorem eatWords?_cases (h : s.Alike L line line' s') (first second : String) :
    eatWords? first second s = none ∧ eatWords? first second s' = none ∨
      ∃ rest rest', eatWords? first second s = some rest ∧
        eatWords? first second s' = some rest' ∧ rest.Alike L line line' rest' := by
  unfold eatWords?
  rcases h.eatWord?_cases first.toList with ⟨he, he'⟩ | ⟨rest, rest', he, he', hr⟩
  · rw [he, he']
    exact .inl ⟨rfl, rfl⟩
  · rw [he, he']
    simp only [Option.bind_eq_bind, Option.bind_some, hr.rest]
    split
    · exact hr.skipBlanks.eatWord?_cases second.toList
    · exact .inl ⟨rfl, rfl⟩

theorem eatQuery?_cases (h : s.Alike L line line' s') :
    eatQuery? s = none ∧ eatQuery? s' = none ∨
      ∃ rest rest', eatQuery? s = some rest ∧ eatQuery? s' = some rest' ∧
        rest.Alike L line line' rest' := by
  unfold eatQuery?
  rcases h.eatWord?_cases "query".toList with ⟨he, he'⟩ | ⟨rest, rest', he, he', hr⟩
  · rw [he, he']
    exact .inl ⟨rfl, rfl⟩
  · rw [he, he']
    exact hr.skipBlanks.eat?_cases ['(']

theorem moreVariables_alike (S : Simulation L m m') (n : Nat) (h : s.Alike L line line' s') :
    S.Rel held (FindingAll (Piece [.identifier]) L line line' held) (moreVariables n s)
      (moreVariables n s') := by
  have hb := h.skipBlanks
  induction n generalizing s s' held with
  | zero => exact S.pure ⟨.nil, hb⟩
  | succ n ih =>
    unfold moreVariables
    dsimp only
    rcases hb.eat?_cases [','] with ⟨he, he'⟩ | ⟨rest, rest', he, he', hr⟩
    · rw [he, he']
      exact S.pure ⟨.nil, hb⟩
    · rw [he, he']
      refine S.bind (S.identifier hr _) ?_
      rintro ⟨name, rest⟩ ⟨name', rest'⟩ _ ⟨⟨_, rfl, rfl⟩, hn⟩
      exact S.bind (ih hn hn.skipBlanks) fun _ _ _ hm =>
        S.pure ⟨.cons ⟨rfl, List.mem_singleton_self _⟩ hm.grown, hm.scan⟩

theorem lineNode_alike (h : line.Alike L line') {kind : Kind} (hk : kind ∈ statementKinds)
    {shape : Shape} (hp : Produces kind shape) {children : List (Option Field × ν)}
    {children' : List (Option Field × ν')} (hg : Grown held shape children children' now) :
    T.Rel lines now (Built (· ∈ statementKinds) held)
      (spanning kind line.bodyStart line.trimmedStop children)
      (spanning kind line'.bodyStart line'.trimmedStop children') :=
  T.spanning hk hp h.bodyStart_offset h.trimmedStop hg

theorem assertion_alike (h : s.Alike L line line' s') :
    T.Rel lines held (Built (· ∈ statementKinds) held) (assertion line s) (assertion line' s') := by
  refine T.mono (T.onLine (P := fun node node' now => now = ⟨node, node', .assert⟩ :: held) ?_)
    fun _ _ _ _ h => ⟨_, by decide, h.2⟩
  refine T.steps.bind (comparison_alike T.steps h) ?_
  rintro ⟨condition, rest⟩ ⟨condition', rest'⟩ _ ⟨⟨_, rfl, rfl⟩, hc⟩
  refine T.steps.bind (T.steps.finish hc) ?_
  rintro _ _ _ rfl
  exact T.steps.spanning rfl h.lines.bodyStart_offset h.lines.trimmedStop .single

theorem nop_alike (h : s.Alike L line line' s') :
    T.Rel lines held (Built (· ∈ statementKinds) held) (nop line s) (nop line' s') := by
  refine T.mono (T.onLine (P := fun node node' now => now = ⟨node, node', .nop⟩ :: held) ?_)
    fun _ _ _ _ h => ⟨_, by decide, h.2⟩
  refine T.steps.bind (T.steps.finish h) ?_
  rintro _ _ _ rfl
  rw [h.lines.body]
  have hp : L.Piece .nop _ _ _ _ := h.lines.scan.piece (Text.trimEnd_prefix line.body)
  exact T.steps.leaf (.free (by decide)) hp

section

variable (hc : Line.Closes closing)

include hc

theorem verbatim_alike {α α' : Type} {Q : α → α' → List Line → Held ν ν' → Prop}
    (h : line.Alike L line') {f : ν → r α} {f' : ν' → r' α'}
    (hf : ∀ {lines} node node', T.Rel lines (⟨node, node', .raw⟩ :: held) Q (f node) (f' node')) :
    T.Rel lines held Q (Verbatim.block line >>= f) (Verbatim.block line' >>= f') := by
  refine T.bind (Verbatim.block_alike T hc h) ?_
  rintro node node' _ _ - ⟨_, rfl, rfl⟩
  exact hf node node'

theorem property_alike (h : line.Alike L line') :
    T.Rel lines held (Built (· = .keyValuePair) held) (property line) (property line') := by
  have hs := h.scan
  unfold property
  dsimp only
  rcases hs.nameOf?_cases isPropertyPart with ⟨hn, hn'⟩ | ⟨name, rest, rest', hn, hn', ht, hr⟩
  · rw [hn, hn']
    exact T.fail hs.point
  · rw [hn, hn']
    have hb := hr.skipBlanks
    refine T.bind (T.leaf (K := (· = .identifier)) rfl (.free (by decide)) (hs.piece ht)) ?_
    rintro key key' _ _ - ⟨_, rfl, rfl⟩
    have hpair {lines : List Line} {kind : Kind} (hk : kind ∈ textKinds) (value : ν)
        (value' : ν') :
        T.Rel lines (⟨value, value', kind⟩ :: ⟨key, key', .identifier⟩ :: held)
          (Built (· = .keyValuePair) held)
          (spanning .keyValuePair line.scan.pos line.trimmedStop
            [(some .key, key), (some .value, value)])
          (spanning .keyValuePair line'.scan.pos line'.trimmedStop
            [(some .key, key'), (some .value, value')]) :=
      T.spanning rfl ⟨_, hk, rfl⟩ hs.pos h.trimmedStop (.cons .single)
    rcases hb.eat?_cases ['='] with ⟨he, he'⟩ | ⟨after, after', he, he', ha⟩
    · rcases hb.eat?_cases [':'] with ⟨hq, hq'⟩ | ⟨after, after', hq, hq', ha⟩
      · rw [he, he', hq, hq']
        exact T.bind (T.fail (Q := fun _ _ _ _ => False) hb.point) fun _ _ _ _ _ => False.elim
      · rw [he, he', hq, hq']
        exact T.finish_bind ha (verbatim_alike T hc h (hpair List.mem_cons_self))
    · rw [he, he']
      refine T.onLine_bind (Declaration.value_alike T.steps ha) ?_
      rintro value value' _ ⟨_, hk, rfl⟩
      exact hpair (List.mem_cons_of_mem _ hk) value value'

theorem query_alike {start start' : Nat} (ho : L.offset start start')
    (h : s.Alike L line line' s') :
    T.Rel lines held (Built (· ∈ expressionKinds) held) (query line start s)
      (query line' start' s') := by
  refine T.onLine_bind (T.steps.identifier h _) ?_
  rintro ⟨connection, rest⟩ ⟨connection', rest'⟩ _ ⟨⟨_, rfl, rfl⟩, hn⟩
  have hb := hn.skipBlanks
  dsimp only at hb ⊢
  rcases hb.eat?_cases [')'] with ⟨he, he'⟩ | ⟨last, last', he, he', hl⟩
  · rw [he, he']
    exact T.fail hb.point
  · rw [he, he']
    refine T.blockColon_bind hl (verbatim_alike T hc h.lines fun sql sql' => ?_)
    exact T.spanning (by decide) rfl ho hl.pos (.cons .single)

theorem scriptResult_alike {start start' : Nat} (ho : L.offset start start')
    (h : s.Alike L line line' s') :
    T.Rel lines held (Built (· ∈ expressionKinds) held) (scriptResult line start s)
      (scriptResult line' start' s') := by
  refine T.onLine_bind (basic_alike T.steps h) ?_
  rintro ⟨interpreter, rest⟩ ⟨interpreter', rest'⟩ _ ⟨⟨_, hk, rfl⟩, hi⟩
  refine T.blockColon_bind hi (verbatim_alike T hc h.lines fun script script' => ?_)
  exact T.spanning (by decide) ⟨_, hk, rfl⟩ ho hi.pos (.cons .single)

theorem execute_alike (h : s.Alike L line line' s') :
    T.Rel lines held (Built (· ∈ statementKinds) held) (execute line s) (execute line' s') := by
  have hb := h.skipBlanks
  unfold execute
  dsimp only
  rcases hb.eatWord?_cases "using".toList with ⟨he, he'⟩ | ⟨rest, rest', he, he', hr⟩
  · rw [he, he']
    dsimp only
    rcases hb.eatWord?_cases "SQL".toList with ⟨he, he'⟩ | ⟨rest, rest', he, he', hr⟩
    · rw [he, he']
      exact T.fail hb.point
    · rw [he, he']
      refine T.onLine_bind (T.steps.word hr _) ?_
      rintro rest rest' _ ⟨rfl, hw⟩
      refine T.onLine_bind (T.steps.identifier hw _) ?_
      rintro ⟨connection, rest⟩ ⟨connection', rest'⟩ _ ⟨⟨_, rfl, rfl⟩, hn⟩
      refine T.blockColon_bind hn (verbatim_alike T hc h.lines fun sql sql' => ?_)
      have hp : Produces .executeSql _ := rfl
      exact lineNode_alike T h.lines (by decide) hp (.cons .single)
  · rw [he, he']
    refine T.onLine_bind (basic_alike T.steps hr) ?_
    rintro ⟨interpreter, rest⟩ ⟨interpreter', rest'⟩ _ ⟨⟨_, hk, rfl⟩, hi⟩
    refine T.blockColon_bind hi (verbatim_alike T hc h.lines fun script script' => ?_)
    have hp : Produces .executeUsing _ := ⟨_, hk, rfl⟩
    exact lineNode_alike T h.lines (by decide) hp (.cons .single)

theorem log_alike (h : s.Alike L line line' s') :
    T.Rel lines held (Built (· ∈ statementKinds) held) (log line s) (log line' s') := by
  unfold log
  dsimp only
  rcases h.eat?_cases [':'] with ⟨he, he'⟩ | ⟨rest, rest', he, he', hr⟩
  · rw [he, he']
    refine T.onLine_bind (Declaration.value_alike T.steps h) ?_
    rintro value value' _ ⟨_, hk, rfl⟩
    have hp : Produces .log _ := ⟨_, List.mem_cons_of_mem _ hk, rfl⟩
    exact lineNode_alike T h.lines (by decide) hp .single
  · rw [he, he']
    refine T.finish_bind hr (verbatim_alike T hc h.lines fun value value' => ?_)
    have hp : Produces .log _ := ⟨_, List.mem_cons_self, rfl⟩
    exact lineNode_alike T h.lines (by decide) hp .single

variable {T} {block : BlockReader r ν} {block' : BlockReader r' ν'}
  (hb : BlocksAlike T below block block')

include hb

theorem statements_alike (h : line.Alike L line') (hl : lines <:+ below) :
    T.Rel lines held (Built (· = .statementBlock) held) (statements block line)
      (statements block' line') := by
  refine T.hasBlock_bind hc h fun has => ?_
  split
  · refine T.bind (hb.ofHeader h _ hl) fun items items' _ now _ ⟨_, hi, hg⟩ => ?_
    refine T.spans_bind fun span span' hs => ?_
    have hstart := startOf_alike hs h hg
    exact T.spanning rfl hi hstart hstart hg
  · exact T.fail (Span.alike_between h.stop h.stop)

theorem connection_alike {start start' : Nat} (ho : L.offset start start')
    (h : s.Alike L line line' s') (hl : lines <:+ below) :
    T.Rel lines held (Built (· ∈ expressionKinds) held) (connection block line start s)
      (connection block' line' start' s') := by
  refine T.onLine_bind (basic_alike T.steps h) ?_
  rintro ⟨url, rest⟩ ⟨url', rest'⟩ _ ⟨⟨kind, hk, rfl⟩, hu⟩
  have hblanks := hu.skipBlanks
  have hend {lines : List Line} {now : Held ν ν'} {properties : List (Option Field × ν)}
      {properties' : List (Option Field × ν')}
      (hp : GrowsMaybe (some .properties, .keyValuePairs) (⟨url, url', kind⟩ :: held) properties
        properties' now) :
      T.Rel lines now (Built (· ∈ expressionKinds) held)
        (spanning .connection start rest.skipBlanks.pos ((some .url, url) :: properties))
        (spanning .connection start' rest'.skipBlanks.pos ((some .url, url') :: properties')) := by
    obtain ⟨_, hp, hg⟩ := hp
    exact T.spanning (by decide) ⟨_, hk, _, hp, rfl⟩ ho hblanks.pos (.cons hg)
  dsimp only at hblanks ⊢
  rcases hblanks.eatWord?_cases "with".toList with ⟨he, he'⟩ | ⟨last, last', he, he', hw⟩
  · rw [he, he']
    refine T.finish_bind hblanks ?_
    refine T.bind (T.pure (Q := fun properties properties' _ now =>
      GrowsMaybe _ _ properties properties' now) ⟨_, .inl rfl, .nil⟩) fun _ _ _ _ _ hp => hend hp
  · rw [he, he']
    refine T.blockColon_bind hw (T.hasBlock_bind hc h.lines fun has => ?_)
    split
    · refine T.bind (hb.ofHeader h.lines _ hl) fun items items' _ now _ ⟨_, hi, hg⟩ => ?_
      refine T.spans_bind fun span span' hs => ?_
      have hstart := startOf_alike hs h.lines hg
      refine T.bind (T.spanning (K := (· = .keyValuePairs)) rfl hi hstart hstart hg) ?_
      rintro pairs pairs' _ _ - ⟨_, rfl, rfl⟩
      refine T.bind (T.pure (Q := fun properties properties' _ now =>
        GrowsMaybe _ _ properties properties' now) ⟨_, .inr rfl, .single⟩)
        fun _ _ _ _ _ hp => hend hp
    · refine T.bind (T.fail (Q := fun _ _ _ _ => False) ?_) fun _ _ _ _ _ => False.elim
      exact Span.alike_between hblanks.pos hblanks.pos

theorem expression_alike (h : s.Alike L line line' s') (hl : lines <:+ below) :
    T.Rel lines held (Built (· ∈ expressionKinds) held) (expression block line s)
      (expression block' line' s') := by
  have hblanks := h.skipBlanks
  unfold expression
  dsimp only
  rcases eatWords?_cases hblanks "connection" "to" with ⟨he, he'⟩ | ⟨rest, rest', he, he', hr⟩
  · rw [he, he']
    dsimp only
    rcases eatQuery?_cases hblanks with ⟨he, he'⟩ | ⟨rest, rest', he, he', hr⟩
    · rw [he, he']
      dsimp only
      rcases eatWords?_cases hblanks "execute" "using" with ⟨he, he'⟩ | ⟨rest, rest', he, he', hr⟩
      · rw [he, he']
        refine T.mono (T.onLine (Declaration.value_alike T.steps hblanks)) ?_
        rintro _ _ _ _ ⟨-, kind, hk, hn⟩
        exact ⟨kind, by simp [expressionKinds, textKinds, hk], hn⟩
      · rw [he, he']
        exact scriptResult_alike T hc hblanks.pos hr
    · rw [he, he']
      exact query_alike T hc hblanks.pos hr
  · rw [he, he']
    exact connection_alike hc hb hblanks.pos hr hl

theorem set_alike (h : s.Alike L line line' s') (hl : lines <:+ below) :
    T.Rel lines held (Built (· ∈ statementKinds) held) (set block line s)
      (set block' line' s') := by
  refine T.onLine_bind (T.steps.identifier h _) ?_
  rintro ⟨name, rest⟩ ⟨name', rest'⟩ _ ⟨⟨_, rfl, rfl⟩, hn⟩
  have hblanks := hn.skipBlanks
  have hend {lines : List Line} {kind : Kind} (hk : kind ∈ expressionKinds) (value : ν)
      (value' : ν') :
      T.Rel lines (⟨value, value', kind⟩ :: ⟨name, name', .identifier⟩ :: held)
        (Built (· ∈ statementKinds) held)
        (spanning .set line.bodyStart line.trimmedStop [(some .name, name), (some .value, value)])
        (spanning .set line'.bodyStart line'.trimmedStop
          [(some .name, name'), (some .value, value')]) := by
    have hp : Produces .set _ := ⟨_, hk, rfl⟩
    exact lineNode_alike T h.lines (by decide) hp (.cons .single)
  dsimp only at hblanks ⊢
  rcases hblanks.eat?_cases ['='] with ⟨he, he'⟩ | ⟨after, after', he, he', ha⟩
  · rcases hblanks.eat?_cases [':'] with ⟨hq, hq'⟩ | ⟨after, after', hq, hq', ha⟩
    · rw [he, he', hq, hq']
      exact T.bind (T.fail (Q := fun _ _ _ _ => False) hblanks.point) fun _ _ _ _ _ => False.elim
    · rw [he, he', hq, hq']
      exact T.finish_bind ha (verbatim_alike T hc h.lines (hend (by decide)))
  · rw [he, he']
    refine T.bind (expression_alike hc hb ha hl) ?_
    rintro value value' _ _ - ⟨_, hk, rfl⟩
    exact hend hk value value'

theorem forLoop_alike (h : s.Alike L line line' s') (hl : lines <:+ below) :
    T.Rel lines held (Built (· ∈ statementKinds) held) (forLoop block line s)
      (forLoop block' line' s') := by
  refine T.onLine_bind (T.steps.identifier h _) ?_
  rintro ⟨first, s⟩ ⟨first', s'⟩ _ ⟨⟨_, rfl, rfl⟩, hf⟩
  have hrest : s'.rest = s.rest := hf.rest
  dsimp only
  rw [hrest]
  refine T.onLine_bind (moreVariables_alike T.steps s.rest.length hf) ?_
  rintro ⟨more, last⟩ ⟨more', last'⟩ now ⟨⟨_, hvariables, hg⟩, hm⟩
  refine T.spans_bind fun span span' hs => ?_
  have hstart : L.offset (span first).start (span' first').start :=
    (hs _ (hg.subset List.mem_cons_self)).start
  have hshape := Shape.all_cons.2 ⟨⟨rfl, List.mem_singleton_self _⟩, hvariables⟩
  refine T.bind (T.spanning (K := (· = .forVariables)) rfl hshape hstart hstart (.cons hg)) ?_
  rintro names names' left _ hleft ⟨_, rfl, rfl⟩
  refine T.onLine_bind (T.steps.word hm _) ?_
  rintro rest rest' _ ⟨rfl, hw⟩
  refine T.onLine_bind (basic_alike T.steps hw) ?_
  rintro ⟨rows, rest⟩ ⟨rows', rest'⟩ _ ⟨⟨_, hk, rfl⟩, hr⟩
  refine T.blockColon_bind hr (T.bind (statements_alike hc hb h.lines (hleft.trans hl)) ?_)
  rintro body body' _ _ - ⟨_, rfl, rfl⟩
  have hp : Produces .forLoop _ := ⟨_, hk, rfl⟩
  exact lineNode_alike T h.lines (by decide) hp (.cons (.cons .single))

theorem otherwise_alike (h : line.Alike L line') (hl : lines <:+ below) :
    T.Rel lines held
      (fun branch branch' _ now =>
        GrowsMaybe (some .alternative, .statementBlock) held branch branch' now)
      (otherwise block line) (otherwise block' line') := by
  refine T.skipIdle_bind hc (T.peek_bind fun lines' hlines => ?_)
  have hleft := (List.dropWhile_suffix (l := lines) Line.isIdle).trans hl
  have hself := List.suffix_refl (lines.dropWhile Line.isIdle)
  generalize hx : lines.dropWhile Line.isIdle = left at hlines hleft hself ⊢
  cases hlines with
  | nil =>
    cases closing with
    | nil => exact T.pure ⟨_, .inl rfl, .nil⟩
    | cons next rest =>
      have he := (hc next rfl).2.2
      rw [List.nil_append]
      dsimp only
      rw [he]
      split
      · exact T.pure ⟨_, .inl rfl, .nil⟩
      · exact T.pure ⟨_, .inl rfl, .nil⟩
  | @cons next next' after after' hnext hr =>
    have hi : next'.indent = line'.indent ↔ next.indent = line.indent := by
      rw [hnext.indent, h.indent, Nat.add_left_cancel_iff]
    have hafter := List.suffix_cons next after
    rw [List.cons_append]
    dsimp only
    simp only [hi]
    split
    · rcases hnext.scan.eatWord?_cases "Else".toList with ⟨he, he'⟩ | ⟨rest, rest', he, he', hs⟩
      · rw [he, he']
        exact T.pure ⟨_, .inl rfl, .nil⟩
      · rw [he, he']
        refine T.goto_bind hafter hr (T.blockColon_bind hs ?_)
        refine T.bind (statements_alike hc hb hnext (hafter.trans hleft)) ?_
        rintro body body' _ _ - ⟨_, rfl, rfl⟩
        exact T.pure ⟨_, .inr rfl, .single⟩
    · exact T.pure ⟨_, .inl rfl, .nil⟩

theorem conditional_alike (h : s.Alike L line line' s') (hl : lines <:+ below) :
    T.Rel lines held (Built (· ∈ statementKinds) held) (conditional block line s)
      (conditional block' line' s') := by
  refine T.onLine_bind (comparison_alike T.steps h) ?_
  rintro ⟨condition, rest⟩ ⟨condition', rest'⟩ _ ⟨⟨_, rfl, rfl⟩, hcond⟩
  refine T.blockColon_bind hcond (T.bind (statements_alike hc hb h.lines hl) ?_)
  rintro consequent consequent' left _ hleft ⟨_, rfl, rfl⟩
  refine T.bind (otherwise_alike hc hb h.lines (hleft.trans hl)) ?_
  rintro alternative alternative' _ now - ⟨_, ha, hg⟩
  have hp : Produces .conditional _ := ⟨_, ha, rfl⟩
  exact lineNode_alike T h.lines (by decide) hp (.cons (.cons hg))

theorem siard_alike (h : s.Alike L line line' s') (hl : lines <:+ below) :
    T.Rel lines held (Built (· ∈ statementKinds) held) (siard block line s)
      (siard block' line' s') := by
  have hblanks := h.skipBlanks
  unfold siard
  dsimp only
  rcases hblanks.eatWord?_cases "metadata".toList with ⟨he, he'⟩ | ⟨rest, rest', he, he', hr⟩
  · rw [he, he']
    dsimp only
    rcases hblanks.eatWord?_cases "output".toList with ⟨he, he'⟩ | ⟨rest, rest', he, he', hr⟩
    · rw [he, he']
      exact T.fail hblanks.point
    · rw [he, he']
      refine T.mono (T.onLine
        (P := fun node node' now => now = ⟨node, node', .siardOutput⟩ :: held) ?_)
        fun _ _ _ _ h => ⟨_, by decide, h.2⟩
      refine T.steps.bind (T.steps.identifier hr _) ?_
      rintro ⟨connection, rest⟩ ⟨connection', rest'⟩ _ ⟨⟨_, rfl, rfl⟩, hn⟩
      refine T.steps.bind (T.steps.word hn _) ?_
      rintro rest rest' _ ⟨rfl, hw⟩
      refine T.steps.bind (basic_alike T.steps hw) ?_
      rintro ⟨file, rest⟩ ⟨file', rest'⟩ _ ⟨⟨_, hk, rfl⟩, hf⟩
      refine T.steps.bind (T.steps.finish hf) ?_
      rintro _ _ _ rfl
      exact T.steps.spanning ⟨_, hk, rfl⟩ h.lines.bodyStart_offset h.lines.trimmedStop
        (.cons .single)
  · rw [he, he']
    refine T.onLine_bind (T.steps.word hr _) ?_
    rintro rest rest' _ ⟨rfl, hw⟩
    refine T.onLine_bind (T.steps.identifier hw _) ?_
    rintro ⟨connection, rest⟩ ⟨connection', rest'⟩ _ ⟨⟨_, rfl, rfl⟩, hn⟩
    refine T.blockColon_bind hn (T.mono (Declaration.metadata_alike hc hb h.lines hl) ?_)
    rintro _ _ _ _ ⟨_, rfl, hm⟩
    exact ⟨_, by decide, hm⟩

theorem parameters_alike (topLevel : Bool) (hs : s.Alike L line line' s') (hl : lines <:+ below) :
    T.Rel lines held (Built (· ∈ statementKinds) held) (parameters block line topLevel s)
      (parameters block' line' topLevel s') := by
  unfold parameters
  split
  · refine T.blockColon_bind hs (T.mono (Declaration.parameters_alike hc hb hs.lines hl) ?_)
    rintro _ _ _ _ ⟨_, rfl, hp⟩
    exact ⟨_, by decide, hp⟩
  · exact T.fail (Span.alike_between hs.lines.bodyStart_offset hs.lines.trimmedStop)

theorem statement_alike (topLevel : Bool) (h : line.Alike L line') (hl : lines <:+ below) :
    T.Rel lines held (Built (· ∈ statementKinds) held) (statement block line topLevel)
      (statement block' line' topLevel) := by
  have hs := h.scan
  have hkeywords : List.Forall₂
      (fun (word : String × (Scan → r ν)) (word' : String × (Scan → r' ν')) =>
        word'.1 = word.1 ∧ ∀ rest rest' : Scan, rest.Alike L line line' rest' →
          T.Rel lines held (Built (· ∈ statementKinds) held) (word.2 rest) (word'.2 rest'))
      (keywords block line topLevel) (keywords block' line' topLevel) := by
    refine .cons ⟨rfl, fun _ _ hr => parameters_alike hc hb topLevel hr hl⟩ ?_
    refine .cons ⟨rfl, fun _ _ hr => nop_alike T hr⟩ ?_
    refine .cons ⟨rfl, fun _ _ hr => set_alike hc hb hr hl⟩ ?_
    refine .cons ⟨rfl, fun _ _ hr => execute_alike T hc hr⟩ ?_
    refine .cons ⟨rfl, fun _ _ hr => forLoop_alike hc hb hr hl⟩ ?_
    refine .cons ⟨rfl, fun _ _ hr => conditional_alike hc hb hr hl⟩ ?_
    refine .cons ⟨rfl, fun _ _ hr => assertion_alike T hr⟩ ?_
    refine .cons ⟨rfl, fun _ _ hr => log_alike T hc hr⟩ ?_
    exact .cons ⟨rfl, fun _ _ hr => siard_alike hc hb hr hl⟩ .nil
  have hfirst := hs.firstWord_cases (fun read : Scan → r ν => read)
    (fun read : Scan → r' ν' => read) hkeywords
  unfold statement
  dsimp only
  rcases hfirst with ⟨he, he'⟩ | ⟨reading, reading', he, he', hr⟩
  · rw [he, he']
    dsimp only
    rw [hs.rest, Scan.atWord, Scan.atWord, hs.rest]
    exact T.fail (Span.alike_between h.bodyStart_offset h.trimmedStop)
  · rw [he, he']
    exact hr

end

end Statement

theorem blockItem_alike (hc : Line.Closes closing) {block : BlockReader r ν}
    {block' : BlockReader r' ν'} (hb : BlocksAlike T below block block') (kind : BlockKind)
    (h : line.Alike L line') (hl : lines <:+ below) :
    T.Rel lines held (BuiltAt (BlockItem kind) held) (blockItem block kind line)
      (blockItem block' kind line') := by
  cases kind with
  | topLevel => exact T.child (Statement.statement_alike hc hb true h hl) fun _ hk => ⟨rfl, hk⟩
  | statements => exact T.child (Statement.statement_alike hc hb false h hl) fun _ hk => ⟨rfl, hk⟩
  | parameters => exact T.child (Declaration.parameter_alike T h) fun _ hk => ⟨rfl, hk⟩
  | properties => exact T.child (Statement.property_alike T hc h) fun _ hk => ⟨rfl, hk⟩
  | metadata => exact Declaration.metadataItem_alike hc hb h hl
  | declaration owner => exact Declaration.declarationItem_alike hc hb owner h hl
  | command => exact Declaration.commandItem_alike hc hb h hl

/-- An item at the head of a block, which may stand at another margin than the items before it. -/
theorem headItem_alike (hc : Line.Closes closing) {block : BlockReader r ν}
    {block' : BlockReader r' ν'} (hb : BlocksAlike T below block block') (expected : Option Nat)
    (kind : BlockKind) (h : line.Alike L line') (hl : lines <:+ below) :
    T.Rel lines held (BuiltAt (BlockItem kind) held)
      (if line.indent = expected.getD line.indent then blockItem block kind line
        else fail .inconsistentIndentation (.between line.start line.stop))
      (if line'.indent = (expected.map (L.margin.length + ·)).getD line'.indent then
          blockItem block' kind line'
        else fail .inconsistentIndentation (.between line'.start line'.stop)) := by
  have hmargin : line'.indent = (expected.map (L.margin.length + ·)).getD line'.indent ↔
      line.indent = expected.getD line.indent := by
    cases expected with
    | none => exact ⟨fun _ => rfl, fun _ => rfl⟩
    | some indent =>
      change line'.indent = L.margin.length + indent ↔ line.indent = indent
      rw [h.indent, Nat.add_left_cancel_iff]
  simp only [hmargin]
  split
  · exact blockItem_alike T hc hb kind h hl
  · exact T.fail (Span.alike_between h.start h.stop)

theorem recover_alike (hc : Line.Closes closing) (indent : Nat) {lines lines' : List Line}
    (h : Line.AllAlike L lines lines') :
    ∃ rest, Line.AllAlike L (recover indent lines) rest ∧
      recover (L.margin.length + indent) (lines' ++ closing) = rest ++ closing := by
  refine ⟨_, h.dropWhile ?_, Line.dropWhile_closing ?_ lines'⟩
  · intro line line' hl
    simp [hl.isEmpty, hl.indent]
  · intro line hl
    obtain ⟨hidle, hi, _⟩ := hc line hl
    have he := (Bool.or_eq_false_iff.1 hidle).1
    simp [hi, he]

/-- Blocks are read alike. Enough fuel for all lines is as good as more, and what follows may only
be other lines where the block ends before them. -/
theorem blockItems_alike (hc : Line.Closes closing) {fuel fuel' : Nat} (hf : lines.length < fuel)
    (hf' : lines.length < fuel') (expected : Option Nat) {parent : Option Nat}
    (hp : parent = none → closing = []) (kind : BlockKind) :
    T.Rel lines held (BuiltAll (BlockItem kind) held) (blockItems fuel expected parent kind)
      (blockItems fuel' (expected.map (L.margin.length + ·)) (parent.map (L.margin.length + ·))
        kind) := by
  induction fuel generalizing fuel' lines held expected parent kind with
  | zero => exact absurd hf (Nat.not_lt_zero _)
  | succ fuel ih =>
    obtain ⟨fuel', rfl⟩ := Nat.exists_eq_add_one_of_ne_zero (Nat.ne_zero_of_lt hf')
    refine T.skipIdle_bind hc (T.peek_bind fun lines' hlines => ?_)
    have hlength := (List.dropWhile_suffix (l := lines) Line.isIdle).length_le
    generalize lines.dropWhile Line.isIdle = left at hlines hlength ⊢
    cases hlines with
    | nil =>
      -- Only a block inside another one ends before the lines that close it.
      cases closing with
      | nil => exact T.pure .nil
      | cons line rest =>
        cases parent with
        | none => cases hp rfl
        | some parent =>
          have hz : line.indent = 0 := (hc line rfl).2.1
          have hany : ((some parent).map (L.margin.length + ·)).any (line.indent ≤ ·) = true := by
            simp [hz]
          rw [List.nil_append]
          dsimp only
          rw [if_pos hany]
          exact T.pure .nil
    | @cons line line' rest rest' hline hr =>
      have hany : (parent.map (L.margin.length + ·)).any (line'.indent ≤ ·) =
          parent.any (line.indent ≤ ·) := by
        cases parent <;> simp [hline.indent]
      have hindent : (expected.map (L.margin.length + ·)).getD line'.indent =
          L.margin.length + expected.getD line.indent := by
        cases expected <;> simp [hline.indent]
      rw [List.length_cons] at hlength
      have hshort {after : List Line} (ha : after <:+ rest) :
          after.length < fuel ∧ after.length < fuel' := by
        have := ha.length_le
        omega
      have hblock : BlocksAlike T rest (blockItems fuel none) (blockItems fuel' none) := by
        intro parent kind after held ha
        have hsome : some parent = none → closing = [] := nofun
        exact ih (hshort ha).1 (hshort ha).2 none hsome kind
      have hnext {after : List Line} {held : Held ν ν'} (ha : after <:+ rest) :
          T.Rel after held (BuiltAll (BlockItem kind) held)
            (blockItems fuel (some (expected.getD line.indent)) parent kind)
            (blockItems fuel' ((some (expected.getD line.indent)).map (L.margin.length + ·))
              (parent.map (L.margin.length + ·)) kind) :=
        ih (hshort ha).1 (hshort ha).2 _ hp kind
      obtain ⟨others, hothers, hrecover⟩ := recover_alike hc line.indent hr
      rw [List.cons_append]
      dsimp only
      rw [hany]
      split
      · exact T.pure .nil
      · refine T.goto_bind (List.suffix_cons line rest) hr (T.bind (T.attempt
          (headItem_alike T hc hblock expected kind hline (List.suffix_refl rest))) ?_)
        rw [hindent]
        rintro _ _ after now ha (⟨⟨place, node⟩, ⟨_, node'⟩, own, rfl, rfl, rfl, rfl, _, hk, rfl⟩ |
          ⟨mistake, mistake', rfl, rfl, rfl, rfl, hm⟩)
        · exact T.bind (hnext ha) fun _ _ _ _ _ hi => T.pure (.cons hk hi)
        · refine T.note_bind (.cons hm .nil) ?_
          rw [hline.indent, hrecover]
          exact T.goto_bind (List.dropWhile_suffix _) hothers (hnext (List.dropWhile_suffix _))

theorem sourceFile_alike (T : LineSimulation L [] r r') {source source' : List Char}
    (hstart : L.offset 0 0) (hstop : L.offset (Text.bytes source) (Text.bytes source')) :
    T.Rel lines held (Built (· = .sourceFile) held) (sourceFile source) (sourceFile source') := by
  refine T.peek_bind fun lines' hl => ?_
  have hlt : lines.length < lines'.length + 1 := Nat.lt_succ_of_le (Nat.le_of_eq hl.length_eq)
  have hp : (none : Option Nat) = none → ([] : List Line) = [] := fun _ => rfl
  rw [List.append_nil]
  refine T.bind (blockItems_alike T Line.closes_nil (Nat.lt_succ_self _) hlt none hp .topLevel) ?_
  rintro items items' _ now - ⟨_, hi, hg⟩
  exact T.spanning rfl hi hstart hstop hg

end ArchiveScript
