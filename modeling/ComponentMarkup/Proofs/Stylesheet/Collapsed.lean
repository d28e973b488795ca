import ComponentMarkup.Proofs.Stylesheet.Written

/-!
# Collapsed style sheets

Collapsing the white space of a text collapses it in every text that is read off it and changes
nothing else: neither what opens or closes a block, nor where a list of selectors is split, nor the
name of an at-rule.
-/

namespace ComponentMarkup.Stylesheet

open Text

section Collapsed

variable {inGroup : Bool} {items : List Item} {input head body : List Lexeme}

theorem IsClean.collapseLexemes (h : IsClean input) (inRun : Bool) :
    IsClean (collapseLexemes inRun input) where
  whole _ hlexeme := isWhole_of_mem_collapseLexemes h.whole hlexeme
  noComment := h.noComment.collapseLexemes inRun
  layout lexeme hlexeme hblank := by
    cases lexeme with
    | quoted text => simp [Lexeme.isBlank] at hblank
    | plain c => exact isLayout_of_mem_collapseLexemes hlexeme hblank

/-- Trimmed texts are collapsed where the lexemes are. -/
theorem trim_textOf_collapseLexemes (h : ∀ lexeme ∈ input, lexeme.IsWhole) (inRun : Bool) :
    trim (textOf (collapseLexemes inRun input)) = collapseRuns false (trim (textOf input)) := by
  have hwhole : ∀ lexeme ∈ collapseLexemes inRun input, lexeme.IsWhole :=
    fun _ hlexeme ↦ isWhole_of_mem_collapseLexemes h hlexeme
  have htrim : ∀ lexeme ∈ trimLexemes input, lexeme.IsWhole :=
    fun lexeme hlexeme ↦ h lexeme ((trimLexemes_isInfix input).subset hlexeme)
  rw [trim_textOf hwhole, trimLexemes_collapseLexemes, textOf_collapseLexemes htrim,
    trim_textOf h]

/-! ## Selectors -/

/-- Parts stay parts: a comma ends every run of white space. -/
theorem collapseLexemes_intercalate (inRun : Bool) (part : List Lexeme)
    (parts : List (List Lexeme)) :
    collapseLexemes inRun ([Lexeme.plain ','].intercalate (part :: parts)) =
      [Lexeme.plain ','].intercalate
        (collapseLexemes inRun part :: parts.map (collapseLexemes false)) := by
  induction parts generalizing inRun part with
  | nil => simp
  | cons next parts ih =>
    have hcomma (inRun : Bool) (rest : List Lexeme) :
        collapseLexemes inRun (.plain ',' :: rest) = .plain ',' :: collapseLexemes false rest :=
      collapseLexemes_cons rfl inRun rest
    rw [List.intercalate_cons_cons, List.append_assoc, List.singleton_append,
      collapseLexemes_append, hcomma, ih, List.map_cons, List.intercalate_cons_cons,
      List.append_assoc, List.singleton_append]

theorem parts?_of_forall {parts : List (List Lexeme)} (hne : parts ≠ [])
    (h : ∀ part ∈ parts, IsPart part) :
    parts? ([Lexeme.plain ','].intercalate parts) = some parts := by
  induction parts with
  | nil => exact absurd rfl hne
  | cons part parts ih =>
    obtain ⟨hpart, hparts⟩ := List.forall_mem_cons.1 h
    cases parts with
    | nil => rw [List.intercalate_singleton, parts?_of_isPart hpart]
    | cons next parts =>
      rw [List.intercalate_cons_cons, List.append_assoc, List.singleton_append,
        parts?_append_comma hpart, ih (List.cons_ne_nil _ _) hparts, Option.map_some]

/-- A list is split at the same commas when it is collapsed. -/
theorem getD_parts?_collapseLexemes (inRun : Bool) (head : List Lexeme) :
    ((parts? (collapseLexemes inRun head)).getD [collapseLexemes inRun head]).map trimLexemes =
      (((parts? head).getD [head]).map trimLexemes).map (collapseLexemes false) := by
  have hskips := skipsBlanks_partPlace?
  cases h : parts? head with
  | none =>
    have hnone : parts? (collapseLexemes inRun head) = none := by
      rw [← Option.not_isSome_iff_eq_none, isSome_parts?_iff, (hskips true).walk?_collapseLexemes,
        ← isSome_parts?_iff, h]
      simp
    rw [hnone]
    simp [trimLexemes_collapseLexemes]
  | some parts =>
    obtain ⟨part, others, rfl⟩ := List.exists_cons_of_ne_nil (parts?_ne_nil h)
    have hparts : ∀ p ∈ collapseLexemes inRun part :: others.map (collapseLexemes false),
        IsPart p := by
      obtain ⟨hpart, hothers⟩ := List.forall_mem_cons.1 (isPart_of_mem_parts? h)
      refine List.forall_mem_cons.2 ⟨?_, fun p hp ↦ ?_⟩
      · rw [IsPart, (hskips false).walk?_collapseLexemes]
        exact hpart
      · obtain ⟨other, hother, rfl⟩ := List.mem_map.1 hp
        rw [IsPart, (hskips false).walk?_collapseLexemes]
        exact hothers other hother
    have hsome := parts?_of_forall (List.cons_ne_nil _ _) hparts
    rw [← collapseLexemes_intercalate, intercalate_of_parts? h] at hsome
    rw [hsome]
    simp [trimLexemes_collapseLexemes]

theorem collapseLexemes_eq_nil_iff : collapseLexemes false input = [] ↔ input = [] := by
  cases input with
  | nil => simp [collapseLexemes]
  | cons lexeme rest =>
    cases lexeme with
    | quoted text => simp [collapseLexemes]
    | plain c => by_cases hc : Text.isBlank c = true <;> simp [collapseLexemes, hc]

theorem selectors_collapseLexemes (h : IsClean head) (inRun : Bool) :
    selectors (collapseLexemes inRun head) = (selectors head).map (collapseRuns false) := by
  have hparts : selectorParts (collapseLexemes inRun head) =
      (selectorParts head).map (collapseLexemes false) := by
    rw [selectorParts, getD_parts?_collapseLexemes, selectorParts, List.filter_map]
    congr 2
    funext part
    rw [Function.comp_apply, Bool.eq_iff_iff]
    simp [collapseLexemes_eq_nil_iff]
  rw [selectors_eq (h.collapseLexemes inRun).whole, hparts, selectors_eq h.whole, List.map_map,
    List.map_map]
  refine List.map_congr_left fun part hpart ↦ ?_
  have hpartClean : IsClean part := h.of_isInfix (of_mem_selectorParts hpart).2.2
  rw [Function.comp_apply, Function.comp_apply, textOf_collapseLexemes hpartClean.whole]

/-! ## At-rules -/

theorem takeWhile_collapseRuns {p : Char → Bool} (hp : ∀ c, Text.isBlank c = true → p c = false)
    (text : Text) : (collapseRuns false text).takeWhile p = text.takeWhile p := by
  induction text with
  | nil => rfl
  | cons c text ih =>
    by_cases hc : Text.isBlank c = true
    · simp [collapseRuns, hc, hp c hc, hp ' ' rfl]
    · simp [collapseRuns, hc, List.takeWhile_cons, ih]

theorem dropWhile_collapseRuns {p : Char → Bool} (hp : ∀ c, Text.isBlank c = true → p c = false)
    (text : Text) :
    (collapseRuns false text).dropWhile p = collapseRuns false (text.dropWhile p) := by
  induction text with
  | nil => rfl
  | cons c text ih =>
    by_cases hc : Text.isBlank c = true
    · simp [collapseRuns, hc, hp c hc, hp ' ' rfl]
    · by_cases hpc : p c = true <;> simp [collapseRuns, hc, hpc, ih]

/-- The name of an at-rule ends where white space begins. -/
theorem isGrouping_collapseRuns (text : Text) :
    isGrouping (collapseRuns false text) = isGrouping text := by
  have hat (c : Char) (hc : Text.isBlank c = true) : decide (c = '@') = false := by
    simpa using ne_of_isBlank hc rfl
  have hname (c : Char) (hc : Text.isBlank c = true) :
      (c.isAlphanum || decide (c = '-')) = false := by
    have hdash : c ≠ '-' := ne_of_isBlank hc rfl
    by_contra hname
    have halphanum : c.isAlphanum = true := by simpa [hdash] using hname
    simp [isBlank_of_isAlphanum halphanum] at hc
  rw [isGrouping, isGrouping, dropWhile_collapseRuns hat, takeWhile_collapseRuns hname]

section Head

variable (h : OpensItem head) (hclean : IsClean head)

include h hclean

theorem isAtRule_collapseLexemes (inRun : Bool) :
    isAtRule (collapseLexemes inRun head) = isAtRule head := by
  have hhead := head?_collapseLexemes_of_head (h.isBlank_first hclean) inRun
  rw [isAtRule, isAtRule, hhead]
  cases head.head? with
  | none => rfl
  | some lexeme => cases lexeme <;> simp [Lexeme.collapse]

theorem opensGroup_collapseLexemes (inRun : Bool) :
    OpensGroup (collapseLexemes inRun head) ↔ OpensGroup head := by
  rw [OpensGroup, OpensGroup, isAtRule_collapseLexemes h hclean,
    trim_textOf_collapseLexemes hclean.whole, isGrouping_collapseRuns]

theorem OpensItem.collapseLexemes (inRun : Bool) : OpensItem (collapseLexemes inRun head) := by
  obtain ⟨first, rest, rfl⟩ := List.exists_cons_of_ne_nil h.ne_nil
  have hfirst : first.isBlank = false := h.isBlank_first hclean first rfl
  refine ⟨?_, ?_, fun lexeme hlexeme ↦ ?_⟩
  · rw [IsHead, skipsBlanks_headPlace?.walk?_collapseLexemes]
    exact h.isHead
  · rw [collapseLexemes_cons hfirst]
    exact List.cons_ne_nil _ _
  · rw [collapseLexemes_cons hfirst] at hlexeme
    obtain rfl : first.collapse = lexeme := by simpa using hlexeme
    by_contra hgap
    have hblank := isBlank_of_isGap (by simpa using hgap)
    simp [isBlank_collapse, hfirst] at hblank

end Head

theorem IsBlock.collapseLexemes (h : IsBlock body) (inRun : Bool) :
    IsBlock (collapseLexemes inRun body) := by
  have hskips : SkipsBlanks fun _ ↦ some Place.outside := fun _ _ ↦ rfl
  rw [IsBlock, hskips.walk?_collapseLexemes]
  exact h

/-! ## Items -/

theorem collapseRuns_append_cons {c : Char} (hc : Text.isBlank c = false) (a b : Text) :
    collapseRuns false (a ++ c :: b) = collapseRuns false a ++ c :: collapseRuns false b := by
  rw [collapseRuns_append, collapseRuns_cons_of_not_blank hc]

/-- One space stays one between what is no white space. -/
theorem collapseRuns_append_space {a : Text} (ha : ∀ c ∈ a.getLast?, Text.isBlank c = false)
    {c : Char} (hc : Text.isBlank c = false) (b : Text) :
    collapseRuns false (a ++ ' ' :: c :: b) =
      collapseRuns false a ++ ' ' :: c :: collapseRuns false b := by
  have hends : endsInRun false a = false := by
    cases hlast : a.getLast? with
    | none => simp [endsInRun, hlast]
    | some d => simp [endsInRun, hlast, ha d hlast]
  rw [collapseRuns_append, hends]
  simp [collapseRuns, hc]

theorem blockItem_collapseLexemes (hhead : OpensItem head) (hclean : IsClean head)
    (hbody : IsClean body) :
    blockItem (collapseLexemes false head) (collapseLexemes false body) =
      (blockItem head body).mapTexts (collapseRuns false) (collapseRuns false) := by
  rw [blockItem, blockItem, isAtRule_collapseLexemes hhead hclean,
    trim_textOf_collapseLexemes hbody.whole]
  by_cases hat : isAtRule head = true
  · rw [if_pos hat, if_pos hat, trim_textOf_collapseLexemes hclean.whole, Item.mapTexts]
    have hverbatim := collapseRuns_append_space (isBlank_getLast?_trim (textOf head))
      (c := '\x7b') rfl (trim (textOf body) ++ ['\x7d'])
    rw [collapseRuns_append_cons (c := '\x7d') rfl] at hverbatim
    simpa [collapseRuns] using hverbatim.symm
  · rw [if_neg hat, if_neg hat, selectors_collapseLexemes hclean, Item.mapTexts]

/-- The lexemes of an item, white space in front of it included, are collapsed piece by piece. -/
theorem collapseLexemes_gap_append (hhead : OpensItem head) (hclean : IsClean head) (inRun : Bool)
    (gap : List Lexeme) :
    collapseLexemes inRun (gap ++ head) =
      collapseLexemes inRun gap ++ collapseLexemes false head := by
  rw [collapseLexemes_append, collapseLexemes_of_head (hhead.isBlank_first hclean)]

theorem collapseLexemes_append_plain {c : Char} (hc : Text.isBlank c = false) (inRun : Bool)
    (front rest : List Lexeme) :
    collapseLexemes inRun (front ++ .plain c :: rest) =
      collapseLexemes inRun front ++ .plain c :: collapseLexemes false rest := by
  have hplain : (Lexeme.plain c).isBlank = false := hc
  rw [collapseLexemes_append, collapseLexemes_cons hplain]
  rfl

/-- What is spelled by collapsed lexemes has collapsed texts, and is the same otherwise. -/
theorem Spelled.collapseLexemes (h : Spelled inGroup items input) (hclean : IsClean input)
    (inRun : Bool) :
    Spelled inGroup (mapTextsOf (collapseRuns false) (collapseRuns false) items)
      (collapseLexemes inRun input) := by
  have hgaps {gap : List Lexeme} (hgap : ∀ lexeme ∈ gap, lexeme.isGap = true)
      (hclean : IsClean gap) (inRun : Bool) :
      ∀ lexeme ∈ Stylesheet.collapseLexemes inRun gap, lexeme.isGap = true := by
    intro lexeme hlexeme
    apply (hclean.collapseLexemes inRun).layout lexeme hlexeme
    exact isBlank_of_mem_collapseLexemes (fun l hl ↦ isBlank_of_isGap (hgap l hl)) inRun lexeme
      hlexeme
  induction h generalizing inRun with
  | nil hgap => exact .nil (hgaps hgap hclean inRun)
  | statement hgap hhead hrest ih =>
    rename_i inGroup gap head rest items
    have hgapClean : IsClean gap := hclean.of_isInfix ⟨[], head ++ .plain ';' :: rest, by simp⟩
    have hheadClean : IsClean head := hclean.of_isInfix ⟨gap, .plain ';' :: rest, rfl⟩
    have hrestClean : IsClean rest := hclean.of_isInfix ⟨gap ++ head ++ [.plain ';'], [], by simp⟩
    rw [collapseLexemes_append_plain rfl, collapseLexemes_gap_append hhead hheadClean]
    have hspelled := Spelled.statement (hgaps hgap hgapClean inRun)
      (hhead.collapseLexemes hheadClean false) (ih hrestClean false)
    rw [trim_textOf_collapseLexemes hheadClean.whole] at hspelled
    rw [mapTextsOf, Item.mapTexts, collapseRuns_append_cons rfl]
    exact hspelled
  | block hgap hhead hkind hbody hrest ih =>
    rename_i inGroup gap head body rest items
    have hgapClean : IsClean gap := hclean.of_isInfix
      ⟨[], head ++ .plain '\x7b' :: body ++ .plain '\x7d' :: rest, by simp⟩
    obtain ⟨hheadClean, hbodyClean, hrestClean⟩ := hclean.of_block
    rw [collapseLexemes_append_plain rfl, collapseLexemes_append_plain rfl,
      collapseLexemes_gap_append hhead hheadClean, mapTextsOf,
      ← blockItem_collapseLexemes hhead hheadClean hbodyClean]
    exact .block (hgaps hgap hgapClean inRun) (hhead.collapseLexemes hheadClean false)
      (mt (opensGroup_collapseLexemes hhead hheadClean false).1 hkind)
      (hbody.collapseLexemes false) (ih hrestClean false)
  | group hgap hhead hkind hbody hrest ihInside ih =>
    rename_i inGroup gap head body rest inside items
    have hgapClean : IsClean gap := hclean.of_isInfix
      ⟨[], head ++ .plain '\x7b' :: body ++ .plain '\x7d' :: rest, by simp⟩
    obtain ⟨hheadClean, hbodyClean, hrestClean⟩ := hclean.of_block
    rw [collapseLexemes_append_plain rfl, collapseLexemes_append_plain rfl,
      collapseLexemes_gap_append hhead hheadClean]
    have hspelled := Spelled.group (hgaps hgap hgapClean inRun)
      (hhead.collapseLexemes hheadClean false)
      ((opensGroup_collapseLexemes hhead hheadClean false).2 hkind)
      (ihInside hbodyClean false) (ih hrestClean false)
    rw [trim_textOf_collapseLexemes hheadClean.whole] at hspelled
    exact hspelled
  | loose hgap hhead =>
    rename_i gap head
    have hgapClean : IsClean gap := hclean.of_isInfix ⟨[], head, by simp⟩
    have hheadClean : IsClean head := hclean.of_isInfix ⟨gap, [], by simp⟩
    rw [collapseLexemes_gap_append hhead hheadClean]
    have hspelled := Spelled.loose (hgaps hgap hgapClean inRun)
      (hhead.collapseLexemes hheadClean false)
    rw [trim_textOf_collapseLexemes hheadClean.whole] at hspelled
    exact hspelled

/-! ## White space around a sheet -/

theorem dropWhile_gap_append {gap : List Lexeme} (hgap : ∀ lexeme ∈ gap, lexeme.isGap = true)
    (hhead : OpensItem head) (hclean : IsClean head) (rest : List Lexeme) :
    (gap ++ head ++ rest).dropWhile Lexeme.isBlank = [] ++ head ++ rest := by
  obtain ⟨first, more, rfl⟩ := List.exists_cons_of_ne_nil hhead.ne_nil
  rw [List.append_assoc, List.dropWhile_append_of_pos fun l hl ↦ isBlank_of_isGap (hgap l hl)]
  simp [hhead.isBlank_first hclean first rfl]

/-- White space in front of the first item is no part of it. -/
theorem Spelled.dropBlanks (h : Spelled inGroup items input) (hclean : IsClean input) :
    Spelled inGroup items (input.dropWhile Lexeme.isBlank) := by
  cases h with
  | nil hgap =>
    rw [List.dropWhile_eq_nil_iff.2 fun lexeme hlexeme ↦ isBlank_of_isGap (hgap lexeme hlexeme)]
    exact .nil (List.forall_mem_nil _)
  | statement hgap hhead hrest =>
    rename_i gap head rest items
    have hheadClean : IsClean head := hclean.of_isInfix ⟨gap, .plain ';' :: rest, rfl⟩
    rw [dropWhile_gap_append hgap hhead hheadClean]
    exact .statement (List.forall_mem_nil _) hhead hrest
  | block hgap hhead hkind hbody hrest =>
    rw [List.append_assoc, dropWhile_gap_append hgap hhead hclean.of_block.1, ← List.append_assoc]
    exact .block (List.forall_mem_nil _) hhead hkind hbody hrest
  | group hgap hhead hkind hbody hrest =>
    rw [List.append_assoc, dropWhile_gap_append hgap hhead hclean.of_block.1, ← List.append_assoc]
    exact .group (List.forall_mem_nil _) hhead hkind hbody hrest
  | loose hgap hhead =>
    rename_i gap head
    have hheadClean : IsClean head := hclean.of_isInfix ⟨gap, [], by simp⟩
    have hdrop := dropWhile_gap_append hgap hhead hheadClean []
    rw [List.append_nil, List.append_nil] at hdrop
    rw [hdrop]
    exact .loose (List.forall_mem_nil _) hhead

theorem rdropWhile_append_cons {α : Type} {p : α → Bool} {a : α} (ha : p a = false)
    (front rest : List α) :
    (front ++ a :: rest).rdropWhile p = front ++ a :: rest.rdropWhile p := by
  induction rest using List.reverseRecOn with
  | nil => exact List.rdropWhile_concat_neg _ _ _ (by simp [ha])
  | append_singleton rest last ih =>
    rw [← List.cons_append, ← List.append_assoc, List.rdropWhile_concat, List.rdropWhile_concat, ih]
    split_ifs <;> simp

/-- White space behind the last item of a sheet is no part of it. -/
theorem Spelled.rdropBlanks (h : Spelled inGroup items input) (hgroup : inGroup = false) :
    Spelled inGroup items (input.rdropWhile Lexeme.isBlank) := by
  induction h with
  | nil hgap =>
    exact .nil fun lexeme hlexeme ↦ hgap lexeme ((List.rdropWhile_prefix _ _).subset hlexeme)
  | statement hgap hhead _ ih =>
    rw [rdropWhile_append_cons rfl]
    exact .statement hgap hhead (ih hgroup)
  | block hgap hhead hkind hbody _ ih =>
    rw [rdropWhile_append_cons rfl]
    exact .block hgap hhead hkind hbody (ih hgroup)
  | group hgap hhead hkind hbody _ _ ih =>
    rw [rdropWhile_append_cons rfl]
    exact .group hgap hhead hkind hbody (ih hgroup)
  | loose => exact absurd hgroup (by decide)

theorem Spelled.trimLexemes (h : Spelled false items input) (hclean : IsClean input) :
    Spelled false items (trimLexemes input) :=
  (h.dropBlanks hclean).rdropBlanks rfl

/-- Reading commutes with collapsing: the collapsed text is read as the sheet with its texts
collapsed. -/
theorem read_collapse (h : Spelled false items input) (hclean : IsClean input) :
    read (collapse (textOf input)) =
      .ok (mapTexts (collapseRuns false) (collapseRuns false) ⟨items⟩) := by
  have hcollapsed := hclean.collapseLexemes false
  have hspelled := (h.collapseLexemes hclean false).trimLexemes hcollapsed
  calc
    read (collapse (textOf input)) =
        read (trim (textOf (Stylesheet.collapseLexemes false input))) := by
      rw [collapse, textOf_collapseLexemes hclean.whole]
    _ = read (textOf (Stylesheet.trimLexemes (Stylesheet.collapseLexemes false input))) := by
      rw [trim_textOf hcollapsed.whole]
    _ = .ok (mapTexts (collapseRuns false) (collapseRuns false) ⟨items⟩) :=
      read_textOf hspelled hcollapsed.trimLexemes

end Collapsed

end ComponentMarkup.Stylesheet
