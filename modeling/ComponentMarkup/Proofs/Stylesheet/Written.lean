import ComponentMarkup.Proofs.Stylesheet.Clean
import ComponentMarkup.Stylesheet.Scope

/-!
# Style sheets written anew

Items that have been read are written with no white space around preludes, declarations and
selectors, without empty selectors, and each on a line of its own. What is written is spelled as
the grammar wants it, with the same items, even if a neutral text is put in front of every
selector. Only a rule that has lost its selectors, or that would begin with `@`, is not read back
as a rule.
-/

namespace ComponentMarkup.Stylesheet

open Text

/-! ## Changing the texts of a sheet -/

mutual

/-- Changes the selectors and the other texts of an item, and nothing else. -/
def Item.mapTexts (selector text : Text → Text) : Item → Item
  | .rule rule => .rule ⟨rule.selectors.map selector, text rule.declarations⟩
  | .group prelude items => .group (text prelude) (mapTextsOf selector text items)
  | .verbatim verbatim => .verbatim (text verbatim)

/-- Changes the selectors and the other texts of a list of items, and nothing else. -/
def mapTextsOf (selector text : Text → Text) : List Item → List Item
  | [] => []
  | item :: rest => item.mapTexts selector text :: mapTextsOf selector text rest

end

/-- Changes the selectors and the other texts of a sheet, and nothing else. -/
def mapTexts (selector text : Text → Text) (sheet : Stylesheet) : Stylesheet :=
  ⟨mapTextsOf selector text sheet.items⟩

section MapTexts

variable {f g f' g' : Text → Text}

mutual

theorem Item.mapTexts_id (item : Item) : item.mapTexts id id = item := by
  cases item with
  | rule rule => simp [Item.mapTexts]
  | group prelude items => rw [Item.mapTexts, mapTextsOf_id items]; rfl
  | verbatim text => rfl

theorem mapTextsOf_id (items : List Item) : mapTextsOf id id items = items := by
  cases items with
  | nil => rfl
  | cons item rest => rw [mapTextsOf, item.mapTexts_id, mapTextsOf_id rest]

end

mutual

theorem Item.mapTexts_mapTexts (item : Item) :
    (item.mapTexts f g).mapTexts f' g' = item.mapTexts (f' ∘ f) (g' ∘ g) := by
  cases item with
  | rule rule => simp [Item.mapTexts]
  | group prelude items =>
    simp only [Item.mapTexts, mapTextsOf_mapTextsOf items, Function.comp_apply]
  | verbatim text => rfl

theorem mapTextsOf_mapTextsOf (items : List Item) :
    mapTextsOf f' g' (mapTextsOf f g items) = mapTextsOf (f' ∘ f) (g' ∘ g) items := by
  cases items with
  | nil => rfl
  | cons item rest =>
    simp only [mapTextsOf, item.mapTexts_mapTexts, mapTextsOf_mapTextsOf rest]

end

mutual

theorem Item.mapRules_scope (token : Text) (start : Nat) (item : Item) :
    item.mapRules (fun _ rule ↦ rule.scope token) start =
      item.mapTexts (fun selector ↦ token ++ ' ' :: selector) id := by
  cases item with
  | rule rule => rfl
  | group prelude items => rw [Item.mapRules, mapRulesOf_scope token start items]; rfl
  | verbatim text => rfl

theorem mapRulesOf_scope (token : Text) (start : Nat) (items : List Item) :
    mapRulesOf (fun _ rule ↦ rule.scope token) start items =
      mapTextsOf (fun selector ↦ token ++ ' ' :: selector) id items := by
  cases items with
  | nil => rfl
  | cons item rest =>
    rw [mapRulesOf, item.mapRules_scope token start, mapRulesOf_scope token _ rest]
    rfl

end

/-- Scoping puts the token in front of the selectors and changes no other text. -/
theorem scopeTo_eq_mapTexts (token : Text) (sheet : Stylesheet) :
    sheet.scopeTo token = sheet.mapTexts (fun selector ↦ token ++ ' ' :: selector) id := by
  rw [scopeTo, mapRules, mapRulesOf_scope]
  rfl

end MapTexts

/-! ## Items that are written -/

/-- The lexemes of the text of these items. -/
structure IsWritten (inGroup : Bool) (items : List Item) (input : List Lexeme) : Prop where
  spelled : Spelled inGroup items input
  text : textOf input = renderItems items
  clean : IsClean input

/-- A rule that begins as a rule when something is put in front of its selectors. -/
def Rule.IsWritable (lead : Text) (rule : Rule) : Prop :=
  ∃ first rest, rule.selectors = first :: rest ∧ (lead ++ first).head? ≠ some '@'

section Written

variable {inGroup : Bool} {items : List Item} {input head body : List Lexeme} {lead : Text}

theorem Spelled.cons_gap (h : Spelled inGroup items input) {lexeme : Lexeme}
    (hlexeme : lexeme.isGap = true) : Spelled inGroup items (lexeme :: input) := by
  have hcons {gap : List Lexeme} (hgap : ∀ other ∈ gap, other.isGap = true) :
      ∀ other ∈ lexeme :: gap, other.isGap = true := List.forall_mem_cons.2 ⟨hlexeme, hgap⟩
  cases h with
  | nil hgap => exact .nil (hcons hgap)
  | statement hgap hhead hrest => exact .statement (hcons hgap) hhead hrest
  | block hgap hhead hkind hbody hrest => exact .block (hcons hgap) hhead hkind hbody hrest
  | group hgap hhead hkind hbody hrest => exact .group (hcons hgap) hhead hkind hbody hrest
  | loose hgap hhead => exact .loose (hcons hgap) hhead

theorem renderItems_cons_cons (item next : Item) (items : List Item) :
    renderItems (item :: next :: items) = item.render ++ '\n' :: renderItems (next :: items) := by
  rw [renderItems]
  exact List.cons_ne_nil _ _

/-- An item is written in front of others. -/
theorem exists_isWritten_cons {item : Item} (front : List Lexeme) (c : Char)
    (hitem : ∀ {rest}, Spelled inGroup items rest →
      Spelled inGroup (item :: items) (front ++ .plain c :: rest))
    (htext : textOf front ++ [c] = item.render) (hfront : IsClean front)
    (hc : isSeparator c = true) (h : ∃ rest, IsWritten inGroup items rest) :
    ∃ input, IsWritten inGroup (item :: items) input := by
  obtain ⟨rest, hrest⟩ := h
  cases items with
  | nil =>
    refine ⟨front ++ .plain c :: rest, hitem hrest.spelled, ?_, hfront.join hc hrest.clean⟩
    rw [textOf_append, textOf_cons, hrest.text, renderItems, renderItems, ← htext]
    simp [Lexeme.text]
  | cons next items =>
    refine ⟨front ++ .plain c :: .plain '\n' :: rest, hitem (hrest.spelled.cons_gap rfl), ?_,
      hfront.join hc (hrest.clean.cons rfl)⟩
    rw [textOf_append, textOf_cons, textOf_cons, hrest.text, renderItems_cons_cons, ← htext]
    simp [Lexeme.text]

/-! ### Preludes without white space around them -/

theorem head?_trimLexemes (h : ∀ lexeme ∈ input.head?, lexeme.isBlank = false) :
    (trimLexemes input).head? = input.head? := by
  obtain ⟨front, back, hfront, hback, heq⟩ := exists_blanks_trimLexemes input
  cases front with
  | nil =>
    cases htrim : trimLexemes input with
    | nil =>
      rw [htrim, List.nil_append, List.nil_append] at heq
      cases back with
      | nil => rw [heq]
      | cons lexeme back =>
        have hblank := hback lexeme List.mem_cons_self
        simp [h lexeme (by rw [heq]; rfl)] at hblank
    | cons lexeme more =>
      rw [htrim] at heq
      rw [heq]
      rfl
  | cons lexeme front =>
    have hblank := hfront lexeme List.mem_cons_self
    simp [h lexeme (by rw [heq]; rfl)] at hblank

theorem OpensItem.isBlank_first (h : OpensItem head) (hclean : IsClean head) :
    ∀ lexeme ∈ head.head?, lexeme.isBlank = false := by
  intro lexeme hlexeme
  by_contra hblank
  have hgap := hclean.layout lexeme (List.mem_of_mem_head? hlexeme) (by simpa using hblank)
  simp [h.first lexeme hlexeme] at hgap

theorem OpensItem.trimLexemes (h : OpensItem head) (hclean : IsClean head) :
    OpensItem (trimLexemes head) := by
  have hhead := head?_trimLexemes (h.isBlank_first hclean)
  refine ⟨?_, ?_, hhead ▸ h.first⟩
  · rw [IsHead, skipsBlanks_headPlace?.walk?_trimLexemes]
    exact h.isHead
  · intro hnil
    rw [hnil, List.head?_nil] at hhead
    exact h.ne_nil (List.head?_eq_none_iff.1 hhead.symm)

theorem OpensItem.append_space (h : OpensItem head) : OpensItem (head ++ [.plain ' ']) := by
  refine ⟨?_, by simp, ?_⟩
  · rw [IsHead, walk?_append_of_eq h.isHead]
    rfl
  · rw [List.head?_append_of_ne_nil _ h.ne_nil]
    exact h.first

theorem trim_textOf_trimLexemes (h : IsClean input) :
    trim (textOf (trimLexemes input)) = trim (textOf input) := by
  rw [trim_textOf h.trimLexemes.whole, trim_textOf h.whole,
    (isTight_trimLexemes input).trimLexemes_eq]

theorem trim_textOf_append_space (h : IsClean input) (htight : IsTight input) :
    trim (textOf (input ++ [.plain ' '])) = textOf input := by
  rw [trim_textOf (h.append_plain rfl).whole, htight.trimLexemes_append]
  simp [Lexeme.isBlank]

section Trimmed

variable (h : OpensItem head) (hclean : IsClean head)

include h hclean

theorem isAtRule_trimmed : isAtRule (trimLexemes head ++ [.plain ' ']) = isAtRule head := by
  rw [isAtRule, isAtRule, List.head?_append_of_ne_nil _ (h.trimLexemes hclean).ne_nil,
    head?_trimLexemes (h.isBlank_first hclean)]

theorem opensGroup_trimmed : OpensGroup (trimLexemes head ++ [.plain ' ']) ↔ OpensGroup head := by
  rw [OpensGroup, OpensGroup, isAtRule_trimmed h hclean,
    trim_textOf_append_space hclean.trimLexemes (isTight_trimLexemes head),
    trim_textOf hclean.whole]

end Trimmed

/-! ### Blocks -/

theorem IsBlock.trimLexemes (h : IsBlock body) : IsBlock (trimLexemes body) := by
  have hskips : SkipsBlanks fun _ ↦ some Place.outside := fun _ _ ↦ rfl
  rw [IsBlock, hskips.walk?_trimLexemes]
  exact h

/-- A prelude and a block, with one space between them. -/
def writeBlock (head body : List Lexeme) : List Lexeme :=
  head ++ .plain ' ' :: .plain '\x7b' :: body

theorem IsClean.writeBlock (hhead : IsClean head) (hbody : IsClean body) :
    IsClean (writeBlock head body) := hhead.join rfl (hbody.cons rfl)

theorem textOf_writeBlock (head body : List Lexeme) :
    textOf (writeBlock head body) = textOf head ++ [' ', '\x7b'] ++ textOf body := by
  simp [writeBlock, Lexeme.text]

/-- What is spelled with a block is clean piece by piece. -/
theorem IsClean.of_block {gap rest : List Lexeme}
    (h : IsClean (gap ++ head ++ .plain '\x7b' :: body ++ .plain '\x7d' :: rest)) :
    IsClean head ∧ IsClean body ∧ IsClean rest := by
  refine ⟨h.of_isInfix ⟨gap, .plain '\x7b' :: body ++ .plain '\x7d' :: rest, by simp⟩,
    h.of_isInfix ⟨gap ++ head ++ [.plain '\x7b'], .plain '\x7d' :: rest, by simp⟩,
    h.of_isInfix ⟨gap ++ head ++ .plain '\x7b' :: body ++ [.plain '\x7d'], [], by simp⟩⟩

/-- A block is spelled with one space in front of its brace. -/
theorem spelled_writeBlock (hhead : OpensItem (head ++ [.plain ' ']))
    (hkind : ¬ OpensGroup (head ++ [.plain ' '])) (hbody : IsBlock body) (hrest : Spelled inGroup items input) :
    Spelled inGroup (blockItem (head ++ [.plain ' ']) body :: items)
      (writeBlock head body ++ .plain '\x7d' :: input) := by
  have hblock := Spelled.block (List.forall_mem_nil _) hhead hkind hbody hrest
  simpa [writeBlock] using hblock

theorem spelled_writeGroup {inside : List Item} (hhead : OpensItem (head ++ [.plain ' ']))
    (hkind : OpensGroup (head ++ [.plain ' '])) (hbody : Spelled true inside body)
    (hrest : Spelled inGroup items input) :
    Spelled inGroup (.group (trim (textOf (head ++ [.plain ' ']))) inside :: items)
      (writeBlock head body ++ .plain '\x7d' :: input) := by
  have hgroup := Spelled.group (List.forall_mem_nil _) hhead hkind hbody hrest
  simpa [writeBlock] using hgroup

/-! ### Selectors -/

theorem textOf_intercalate (parts : List (List Lexeme)) :
    textOf ([Lexeme.plain ','].intercalate parts) = joinWith [','] (parts.map textOf) := by
  induction parts with
  | nil => rfl
  | cons part parts ih =>
    cases parts with
    | nil => simp [joinWith]
    | cons next parts =>
      rw [List.intercalate_cons_cons, textOf_append, textOf_append, ih, joinWith, joinWith,
        List.map_cons, List.map_cons, List.map_cons, List.intercalate_cons_cons]
      rfl

theorem IsClean.cons_neutral (h : IsClean input) {c : Char} (hc : isNeutral c = true) :
    IsClean (.plain c :: input) where
  whole := by
    have hne {d : Char} (hd : isNeutral d = false) : c ≠ d := ne_of_isNeutral hc hd
    refine List.forall_mem_cons.2 ⟨?_, h.whole⟩
    simp [Lexeme.IsWhole, isQuote, hne (d := '"') rfl, hne (d := '\'') rfl]
  noComment := List.isChain_cons.2
    ⟨fun lexeme _ ↦ apart_plain (ne_of_isNeutral hc rfl) lexeme, h.noComment⟩
  layout := by
    refine List.forall_mem_cons.2 ⟨fun hblank ↦ ?_, h.layout⟩
    have hblank : Text.isBlank c = true := hblank
    simp only [isNeutral, Bool.or_eq_true, decide_eq_true_eq] at hc
    rcases hc with ((((hc | rfl) | rfl) | rfl) | rfl) | rfl
    · simp [isBlank_of_isAlphanum hc] at hblank
    all_goals first | rfl | exact absurd hblank (by decide)

theorem isClean_lead (hlead : ∀ c ∈ lead, isNeutral c = true) (h : IsClean input) :
    IsClean (lead.map Lexeme.plain ++ input) := by
  induction lead with
  | nil => exact h
  | cons c lead ih =>
    obtain ⟨hc, hlead⟩ := List.forall_mem_cons.1 hlead
    exact (ih hlead).cons_neutral hc

theorem isClean_intercalate {parts : List (List Lexeme)} (h : ∀ part ∈ parts, IsClean part) :
    IsClean ([Lexeme.plain ','].intercalate parts) := by
  induction parts with
  | nil => exact isClean_nil
  | cons part parts ih =>
    obtain ⟨hpart, hparts⟩ := List.forall_mem_cons.1 h
    cases parts with
    | nil => simpa using hpart
    | cons next parts =>
      rw [List.intercalate_cons_cons, List.append_assoc, List.singleton_append]
      exact hpart.join rfl (ih hparts)

theorem isClean_writeSelectors (hlead : IsLead lead) (h : IsClean head) :
    IsClean (writeSelectors lead (selectorParts head)) := by
  apply isClean_intercalate
  intro part hpart
  obtain ⟨inside, hinside, rfl⟩ := List.mem_map.1 hpart
  exact isClean_lead hlead.neutral (h.of_isInfix (of_mem_selectorParts hinside).2.2)

theorem textOf_writeSelectors (h : IsClean head) :
    textOf (writeSelectors lead (selectorParts head)) =
      joinWith [','] ((selectors head).map (lead ++ ·)) := by
  rw [writeSelectors, textOf_intercalate, selectors_eq h.whole, List.map_map, List.map_map]
  congr 2
  funext part
  simp

theorem exists_writeSelectors_eq (lead : Text) (part : List Lexeme) (parts : List (List Lexeme)) :
    ∃ rest, writeSelectors lead (part :: parts) = lead.map Lexeme.plain ++ part ++ rest := by
  cases parts with
  | nil => exact ⟨[], by simp [writeSelectors]⟩
  | cons next parts =>
    refine ⟨.plain ',' :: writeSelectors lead (next :: parts), ?_⟩
    simp [writeSelectors, List.intercalate_cons_cons]

/-- A rule is written with its selectors behind something neutral. -/
theorem spelled_writeRule (hhead : OpensItem head) (hclean : IsClean head) (hlead : IsLead lead)
    (hbody : IsBlock body) (hrule : Rule.IsWritable lead ⟨selectors head, trim (textOf body)⟩)
    (hrest : Spelled inGroup items input) :
    Spelled inGroup (.rule ⟨(selectors head).map (lead ++ ·), trim (textOf body)⟩ :: items)
      (writeBlock (writeSelectors lead (selectorParts head)) body ++ .plain '\x7d' :: input) := by
  obtain ⟨first, others, hselectors, hat⟩ := hrule
  rw [selectors_eq hclean.whole] at hselectors
  obtain ⟨part, parts, hparts, hfirst, -⟩ := List.map_eq_cons_iff.1 hselectors
  obtain ⟨htight, hne, -⟩ := of_mem_selectorParts (hparts ▸ List.mem_cons_self)
  let written := writeSelectors lead (selectorParts head)
  have hhead? : (written ++ [Lexeme.plain ' ']).head? = (lead.map Lexeme.plain ++ part).head? := by
    obtain ⟨rest, hrest⟩ := exists_writeSelectors_eq lead part parts
    have hfront : lead.map Lexeme.plain ++ part ≠ [] := by simp [hne]
    simp only [written, hparts, hrest, List.append_assoc _ rest]
    exact List.head?_append_of_ne_nil _ hfront
  have hopens : OpensItem (written ++ [.plain ' ']) := by
    refine ⟨isHead_writeSelectors hlead hhead.isHead, by simp, fun lexeme hlexeme ↦ ?_⟩
    by_contra hgap
    have hblank := isBlank_of_isGap (by simpa using hgap)
    rw [hhead?] at hlexeme
    simp [(isTight_lead hlead htight hne).head lexeme hlexeme] at hblank
  have hnotAt : isAtRule (written ++ [.plain ' ']) = false := by
    rw [isAtRule, hhead?, decide_eq_false_iff_not]
    intro hplain
    obtain ⟨rest, hrest⟩ := List.head?_eq_some_iff.1 hplain
    have htext := congrArg textOf hrest
    rw [textOf_append, textOf_map_plain, hfirst] at htext
    rw [htext] at hat
    exact hat rfl
  have hwhole : ∀ lexeme ∈ written ++ [.plain ' '], lexeme.IsWhole :=
    ((isClean_writeSelectors hlead hclean).append_plain rfl).whole
  have hitem : blockItem (written ++ [.plain ' ']) body =
      .rule ⟨(selectors head).map (lead ++ ·), trim (textOf body)⟩ := by
    have hnonempty : selectorParts head ≠ [] := by simp [hparts]
    rw [blockItem, hnotAt, selectors_eq hwhole, selectorParts_writeSelectors hlead hnonempty,
      selectors_eq hclean.whole]
    simp
  have hkind : ¬ OpensGroup (written ++ [.plain ' ']) := by simp [OpensGroup, hnotAt]
  rw [← hitem]
  exact spelled_writeBlock hopens hkind hbody hrest

/-! ### Items in front of other items -/

section InFront

variable (hhead : OpensItem head) (hclean : IsClean head)
  (hmore : ∃ output, IsWritten inGroup items output)

include hhead hclean hmore

theorem exists_isWritten_statement :
    ∃ output, IsWritten inGroup (.verbatim (trim (textOf head) ++ [';']) :: items) output := by
  refine exists_isWritten_cons (trimLexemes head) ';' (fun hafter ↦ ?_) ?_ hclean.trimLexemes rfl
    hmore
  · have hspelled := Spelled.statement (List.forall_mem_nil _) (hhead.trimLexemes hclean) hafter
    rw [trim_textOf_trimLexemes hclean] at hspelled
    exact hspelled
  · rw [← trim_textOf hclean.whole]
    rfl

/-- The block of an at-rule is written as it is. -/
theorem exists_isWritten_atRule (hkind : ¬ OpensGroup head) (hat : isAtRule head = true)
    (hbody : IsBlock body) (hbodyClean : IsClean body) :
    ∃ output, IsWritten inGroup (.verbatim
      (trim (textOf head) ++ [' ', '\x7b'] ++ trim (textOf body) ++ ['\x7d']) :: items) output := by
  refine exists_isWritten_cons (writeBlock (trimLexemes head) (trimLexemes body)) '\x7d'
    (fun hafter ↦ ?_) ?_ (hclean.trimLexemes.writeBlock hbodyClean.trimLexemes) rfl hmore
  · have hspelled := spelled_writeBlock (hhead.trimLexemes hclean).append_space
      (mt (opensGroup_trimmed hhead hclean).1 hkind) hbody.trimLexemes hafter
    rw [blockItem, isAtRule_trimmed hhead hclean, if_pos hat,
      trim_textOf_append_space hclean.trimLexemes (isTight_trimLexemes head),
      trim_textOf_trimLexemes hbodyClean, ← trim_textOf hclean.whole] at hspelled
    exact hspelled
  · rw [textOf_writeBlock, ← trim_textOf hclean.whole, ← trim_textOf hbodyClean.whole]
    rfl

/-- A rule is written with something neutral in front of each of its selectors. -/
theorem exists_isWritten_rule (hlead : IsLead lead) (hbody : IsBlock body)
    (hbodyClean : IsClean body)
    (hrule : Rule.IsWritable lead ⟨selectors head, trim (textOf body)⟩) :
    ∃ output, IsWritten inGroup
      (.rule ⟨(selectors head).map (lead ++ ·), trim (textOf body)⟩ :: items) output := by
  rw [← trim_textOf_trimLexemes hbodyClean] at hrule ⊢
  refine exists_isWritten_cons
    (writeBlock (writeSelectors lead (selectorParts head)) (trimLexemes body)) '\x7d'
    (spelled_writeRule hhead hclean hlead hbody.trimLexemes hrule) ?_
    ((isClean_writeSelectors hlead hclean).writeBlock hbodyClean.trimLexemes) rfl hmore
  rw [textOf_writeBlock, textOf_writeSelectors hclean, trim_textOf_trimLexemes hbodyClean,
    ← trim_textOf hbodyClean.whole]
  rfl

theorem exists_isWritten_group (hkind : OpensGroup head) {inside : List Item}
    (hinside : ∃ output, IsWritten true inside output) :
    ∃ output, IsWritten inGroup (.group (trim (textOf head)) inside :: items) output := by
  obtain ⟨output, houtput⟩ := hinside
  refine exists_isWritten_cons (writeBlock (trimLexemes head) output) '\x7d' (fun hafter ↦ ?_) ?_
    (hclean.trimLexemes.writeBlock houtput.clean) rfl hmore
  · have hspelled := spelled_writeGroup (hhead.trimLexemes hclean).append_space
      ((opensGroup_trimmed hhead hclean).2 hkind) houtput.spelled hafter
    rw [trim_textOf_append_space hclean.trimLexemes (isTight_trimLexemes head),
      ← trim_textOf hclean.whole] at hspelled
    exact hspelled
  · rw [textOf_writeBlock, ← trim_textOf hclean.whole, houtput.text]
    rfl

end InFront

theorem isWritten_loose (hhead : OpensItem head) (hclean : IsClean head) :
    IsWritten true [.verbatim (trim (textOf head))] (trimLexemes head) := by
  refine ⟨?_, ?_, hclean.trimLexemes⟩
  · have hspelled := Spelled.loose (List.forall_mem_nil _) (hhead.trimLexemes hclean)
    rw [trim_textOf_trimLexemes hclean] at hspelled
    exact hspelled
  · rw [← trim_textOf hclean.whole]
    rfl

/-- Items that have been read are written so that they are read again, with something neutral in
front of their selectors. -/
theorem exists_isWritten (h : Spelled inGroup items input) (hclean : IsClean input)
    (hlead : IsLead lead) (hrules : ∀ rule ∈ rulesOf items, rule.IsWritable lead) :
    ∃ output, IsWritten inGroup (mapTextsOf (lead ++ ·) id items) output := by
  induction h with
  | nil hgap => exact ⟨[], .nil (List.forall_mem_nil _), rfl, isClean_nil⟩
  | statement hgap hhead hrest ih =>
    rename_i inGroup gap head rest items
    have hheadClean : IsClean head := hclean.of_isInfix ⟨gap, .plain ';' :: rest, rfl⟩
    have hrestClean : IsClean rest := hclean.of_isInfix ⟨gap ++ head ++ [.plain ';'], [], by simp⟩
    exact exists_isWritten_statement hhead hheadClean (ih hrestClean hrules)
  | block hgap hhead hkind hbody hrest ih =>
    rename_i inGroup gap head body rest items
    obtain ⟨hheadClean, hbodyClean, hrestClean⟩ := hclean.of_block
    have hmore : ∃ output, IsWritten inGroup (mapTextsOf (lead ++ ·) id items) output :=
      ih hrestClean fun rule hrule ↦ hrules rule (List.mem_append_right _ hrule)
    by_cases hat : isAtRule head = true
    · rw [blockItem, if_pos hat]
      exact exists_isWritten_atRule hhead hheadClean hmore hkind hat hbody hbodyClean
    · have hitem : blockItem head body = .rule ⟨selectors head, trim (textOf body)⟩ := by
        rw [blockItem, if_neg hat]
      rw [hitem] at hrules ⊢
      exact exists_isWritten_rule hhead hheadClean hmore hlead hbody hbodyClean
        (hrules _ List.mem_cons_self)
  | group hgap hhead hkind hbody hrest ihInside ih =>
    rename_i inGroup gap head body rest inside items
    obtain ⟨hheadClean, hbodyClean, hrestClean⟩ := hclean.of_block
    exact exists_isWritten_group hhead hheadClean
      (ih hrestClean fun rule hrule ↦ hrules rule (List.mem_append_right _ hrule)) hkind
      (ihInside hbodyClean fun rule hrule ↦ hrules rule (List.mem_append_left _ hrule))
  | loose hgap hhead =>
    rename_i gap head
    exact ⟨_, isWritten_loose hhead (hclean.of_isInfix ⟨gap, [], by simp⟩)⟩

/-- Reading and writing: a sheet that has been read is written so that it is read again. -/
theorem read_render {text : Text} {sheet : Stylesheet} (h : read text = .ok sheet)
    (hlayout : ∀ c ∈ text, Text.isBlank c = true → isLayout c = true)
    (hselectors : ∀ rule ∈ sheet.rules, rule.selectors ≠ [])
    (hfirst : ∀ rule ∈ sheet.rules, ∀ selector ∈ rule.selectors.head?, selector.head? ≠ some '@') :
    read sheet.render = .ok sheet := by
  have hlead : IsLead [] := ⟨by simp, by simp⟩
  have hrules : ∀ rule ∈ rulesOf sheet.items, rule.IsWritable [] := by
    intro rule hrule
    obtain ⟨first, rest, hcons⟩ := List.exists_cons_of_ne_nil (hselectors rule hrule)
    exact ⟨first, rest, hcons, hfirst rule hrule first (by rw [hcons]; rfl)⟩
  obtain ⟨input, hspelled, hclean⟩ := exists_spelled_of_read h hlayout
  obtain ⟨output, houtput⟩ := exists_isWritten hspelled hclean hlead hrules
  have hitems : mapTextsOf ([] ++ ·) id sheet.items = sheet.items := mapTextsOf_id sheet.items
  rw [hitems] at houtput
  calc
    read sheet.render = read (textOf output) := by rw [houtput.text, render]
    _ = .ok sheet := read_textOf houtput.spelled houtput.clean

/-- A sheet with a comment, a group, and a string with a brace in a selector. -/
def framedText : Text :=
  "/* A */ a , b[c='\x7d'] \x7b x : y \x7d\n@media p \x7b d\x7b\x7d e \x7d".toList

def framedSheet : Stylesheet :=
  ⟨[.rule ⟨["a".toList, "b[c='\x7d']".toList], "x : y".toList⟩,
    .group "@media p".toList [.rule ⟨["d".toList], []⟩, .verbatim "e".toList]]⟩

theorem read_framedText : read framedText = .ok framedSheet := by with_unfolding_all rfl

theorem isLayout_framedText : ∀ c ∈ framedText, Text.isBlank c = true → isLayout c = true := by
  have hall : framedText.all (fun c ↦ !Text.isBlank c || isLayout c) = true := rfl
  simpa [List.all_eq_true, imp_iff_not_or] using hall

theorem read_render_framedText :
    read framedText = .ok framedSheet ∧
      (∀ c ∈ framedText, Text.isBlank c = true → isLayout c = true) ∧
      (∀ rule ∈ framedSheet.rules, rule.selectors ≠ []) ∧
      (∀ rule ∈ framedSheet.rules, ∀ selector ∈ rule.selectors.head?, selector.head? ≠ some '@') ∧
      read framedSheet.render = .ok framedSheet := by
  have hselectors : ∀ rule ∈ framedSheet.rules, rule.selectors ≠ [] := by decide
  have hfirst : ∀ rule ∈ framedSheet.rules, ∀ selector ∈ rule.selectors.head?,
      selector.head? ≠ some '@' := by decide
  exact ⟨read_framedText, isLayout_framedText, hselectors, hfirst,
    read_render read_framedText isLayout_framedText hselectors hfirst⟩

end Written

end ComponentMarkup.Stylesheet
