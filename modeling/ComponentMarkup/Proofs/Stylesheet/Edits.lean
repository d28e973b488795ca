import ComponentMarkup.Proofs.Stylesheet.Written

/-!
# Edits of a style sheet

Going through the rules of a sheet to change them meets the same rules in the same order as listing
them, groups included, so that a number means the same rule either way. An edit of one selector
therefore changes this selector and nothing else, in the sheet and in what is written of it, and
after any number of edits each selector has the text that was given to it last.
-/

namespace ComponentMarkup.Stylesheet

open Text

/-- The selector at a place of the rule with a number. -/
def selector? (sheet : Stylesheet) (rule place : Nat) : Option Text :=
  sheet.rules[rule]?.bind fun rule ↦ rule.selectors[place]?

/-- What stands around the rules of a sheet: its groups and other items, with every rule emptied. -/
def frame (sheet : Stylesheet) : Stylesheet := sheet.mapRules fun _ _ ↦ ⟨[], []⟩

/-- A text for one selector. -/
structure Edit where
  rule : Nat
  place : Nat
  text : Text

def edit (sheet : Stylesheet) (edit : Edit) : Stylesheet :=
  sheet.setSelector edit.rule edit.place edit.text

/-- One edit after the other. -/
def editAll (sheet : Stylesheet) (edits : List Edit) : Stylesheet :=
  edits.foldl Stylesheet.edit sheet

/-- The text that was given last to a selector, which is the old one if none was given. -/
def lastText (rule place : Nat) (old : Text) (edits : List Edit) : Text :=
  edits.foldl
    (fun text edit ↦ if edit.rule = rule ∧ edit.place = place then edit.text else text) old

/-- At most the selectors differ: the rules are as many and in the same order, with the same
declarations, and so are the groups and the other items. -/
structure SameButSelectors (before after : Stylesheet) : Prop where
  declarations : after.rules.map Rule.declarations = before.rules.map Rule.declarations
  frame : after.frame = before.frame

/-- An edit changes one selector, in the sheet and in what is written of it. -/
structure ChangesOneSelector (before : Stylesheet) (edit : Edit) (after : Stylesheet) : Prop where
  changed : before.hasSelector edit.rule edit.place = true →
    after.selector? edit.rule edit.place = some edit.text
  others : ∀ rule place, (rule, place) ≠ (edit.rule, edit.place) →
    after.selector? rule place = before.selector? rule place
  rest : SameButSelectors before after
  written : ∀ old, before.selector? edit.rule edit.place = some old →
    ∃ front behind, before.render = front ++ old ++ behind ∧
      after.render = front ++ edit.text ++ behind
  outOfRange : before.hasSelector edit.rule edit.place = false → after = before

/-! ## Rules and their numbers -/

section Numbers

variable {f g : Nat → Rule → Rule}

mutual

theorem Item.rules_mapRules (f : Nat → Rule → Rule) (start : Nat) (item : Item) :
    (item.mapRules f start).rules = item.rules.mapIdx fun number ↦ f (start + number) := by
  cases item with
  | rule rule => rfl
  | group prelude items => exact rulesOf_mapRulesOf f start items
  | verbatim text => rfl

/-- The rules are changed by the numbers that they have in the list. -/
theorem rulesOf_mapRulesOf (f : Nat → Rule → Rule) (start : Nat) (items : List Item) :
    rulesOf (mapRulesOf f start items) =
      (rulesOf items).mapIdx fun number ↦ f (start + number) := by
  cases items with
  | nil => rfl
  | cons item rest =>
    have hshift (number : Nat) : start + (number + item.rules.length) =
        start + item.rules.length + number := by omega
    rw [mapRulesOf, rulesOf, rulesOf, List.mapIdx_append, item.rules_mapRules f start,
      rulesOf_mapRulesOf f _ rest]
    simp only [hshift]

end

mutual

theorem Item.mapRules_mapRules (start : Nat) (item : Item) :
    (item.mapRules f start).mapRules g start =
      item.mapRules (fun number rule ↦ g number (f number rule)) start := by
  cases item with
  | rule rule => rfl
  | group prelude items => simp only [Item.mapRules, mapRulesOf_mapRulesOf start items]
  | verbatim text => rfl

/-- Changing the rules twice is changing them once by both. -/
theorem mapRulesOf_mapRulesOf (start : Nat) (items : List Item) :
    mapRulesOf g start (mapRulesOf f start items) =
      mapRulesOf (fun number rule ↦ g number (f number rule)) start items := by
  cases items with
  | nil => rfl
  | cons item rest =>
    simp only [mapRulesOf, item.mapRules_mapRules, item.rules_mapRules, List.length_mapIdx,
      mapRulesOf_mapRulesOf _ rest]

end

mutual

theorem Item.mapRules_eq_self (start : Nat) (item : Item)
    (h : ∀ number rule, item.rules[number]? = some rule → f (start + number) rule = rule) :
    item.mapRules f start = item := by
  cases item with
  | rule rule =>
    have hrule : f start rule = rule := h 0 rule rfl
    rw [Item.mapRules, hrule]
  | group prelude items => rw [Item.mapRules, mapRulesOf_eq_self start items h]
  | verbatim text => rfl

/-- Where each rule is left as it is, the items are. -/
theorem mapRulesOf_eq_self (start : Nat) (items : List Item)
    (h : ∀ number rule, (rulesOf items)[number]? = some rule → f (start + number) rule = rule) :
    mapRulesOf f start items = items := by
  cases items with
  | nil => rfl
  | cons item rest =>
    have hitem : item.mapRules f start = item := by
      refine item.mapRules_eq_self start fun number rule hrule ↦ h number rule ?_
      rw [rulesOf, List.getElem?_append_left (List.getElem?_eq_some_iff.1 hrule).1]
      exact hrule
    have hrest : mapRulesOf f (start + item.rules.length) rest = rest := by
      refine mapRulesOf_eq_self _ rest fun number rule hrule ↦ ?_
      rw [Nat.add_assoc]
      apply h
      rw [rulesOf, List.getElem?_append_right (Nat.le_add_right _ _), Nat.add_sub_cancel_left]
      exact hrule
    rw [mapRulesOf, hitem, hrest]

end

/-- Both ways through a sheet number its rules alike. -/
theorem rules_mapRules (f : Nat → Rule → Rule) (sheet : Stylesheet) :
    (sheet.mapRules f).rules = sheet.rules.mapIdx f := by
  rw [mapRules, rules, rulesOf_mapRulesOf]
  simp only [Nat.zero_add]
  rfl

theorem frame_mapRules (f : Nat → Rule → Rule) (sheet : Stylesheet) :
    (sheet.mapRules f).frame = sheet.frame := by
  rw [frame, frame, mapRules, mapRules, mapRulesOf_mapRulesOf]
  rfl

end Numbers

/-! ## What is written around a rule -/

section Written

theorem renderItems_cons_eq (item : Item) (items : List Item) :
    renderItems (item :: items) =
      item.render ++ if items.isEmpty then [] else '\n' :: renderItems items := by
  cases items with
  | nil => simp [renderItems]
  | cons next items => rw [renderItems_cons_cons]; rfl

theorem isEmpty_mapRulesOf (f : Nat → Rule → Rule) (start : Nat) (items : List Item) :
    (mapRulesOf f start items).isEmpty = items.isEmpty := by
  cases items <;> rfl

mutual

theorem Item.exists_render_mapRules (start : Nat) (item : Item) {number : Nat} {rule : Rule}
    (h : item.rules[number]? = some rule) :
    ∃ front behind : Text, ∀ f : Nat → Rule → Rule,
      (∀ other rule, other ≠ start + number → f other rule = rule) →
      (item.mapRules f start).render =
        front ++ (f (start + number) rule).render ++ behind := by
  cases item with
  | rule first =>
    cases number with
    | zero =>
      obtain rfl : first = rule := Option.some.inj h
      exact ⟨[], [], fun f _ ↦ by simp [Item.mapRules, Item.render]⟩
    | succ number => simp [Item.rules] at h
  | group prelude items =>
    obtain ⟨front, behind, hrender⟩ := exists_render_mapRulesOf start items h
    refine ⟨prelude ++ [' ', '\x7b'] ++ front, behind ++ ['\x7d'], fun f hf ↦ ?_⟩
    rw [Item.mapRules, Item.render, hrender f hf]
    simp
  | verbatim text => simp [Item.rules] at h

/-- What is written around a rule does not depend on the rule. -/
theorem exists_render_mapRulesOf (start : Nat) (items : List Item) {number : Nat} {rule : Rule}
    (h : (rulesOf items)[number]? = some rule) :
    ∃ front behind : Text, ∀ f : Nat → Rule → Rule,
      (∀ other rule, other ≠ start + number → f other rule = rule) →
      renderItems (mapRulesOf f start items) =
        front ++ (f (start + number) rule).render ++ behind := by
  cases items with
  | nil => simp [rulesOf] at h
  | cons item items =>
    rw [rulesOf] at h
    by_cases hnumber : number < item.rules.length
    · rw [List.getElem?_append_left hnumber] at h
      obtain ⟨front, behind, hrender⟩ := item.exists_render_mapRules start h
      refine ⟨front, behind ++ if items.isEmpty then [] else '\n' :: renderItems items,
        fun f hf ↦ ?_⟩
      have hrest : mapRulesOf f (start + item.rules.length) items = items :=
        mapRulesOf_eq_self _ items fun other rule _ ↦ hf _ rule (by omega)
      rw [mapRulesOf, renderItems_cons_eq, hrest, hrender f hf, List.append_assoc]
    · rw [List.getElem?_append_right (by omega)] at h
      have hne : items.isEmpty = false := by
        cases items with
        | nil => simp [rulesOf] at h
        | cons next items => rfl
      obtain ⟨front, behind, hrender⟩ :=
        exists_render_mapRulesOf (start + item.rules.length) items h
      refine ⟨item.render ++ '\n' :: front, behind, fun f hf ↦ ?_⟩
      have hplace : start + item.rules.length + (number - item.rules.length) = start + number := by
        omega
      rw [hplace] at hrender
      have hitem : item.mapRules f start = item := by
        refine item.mapRules_eq_self start fun other rule hother ↦ hf _ rule ?_
        have hlt := (List.getElem?_eq_some_iff.1 hother).1
        omega
      rw [mapRulesOf, renderItems_cons_eq, isEmpty_mapRulesOf, hne, hitem, hrender f hf]
      simp

end

/-- What is written around a text in a list does not depend on the text. -/
theorem exists_joinWith_set (separator : Text) {pieces : List Text} {place : Nat} {old : Text}
    (h : pieces[place]? = some old) :
    ∃ front behind : Text, ∀ text,
      joinWith separator (pieces.set place text) = front ++ text ++ behind := by
  induction pieces generalizing place with
  | nil => simp at h
  | cons piece pieces ih =>
    cases place with
    | zero =>
      cases pieces with
      | nil => exact ⟨[], [], fun text ↦ by simp [joinWith]⟩
      | cons next pieces =>
        exact ⟨[], separator ++ joinWith separator (next :: pieces),
          fun text ↦ by simp [joinWith, List.intercalate_cons_cons]⟩
    | succ place =>
      obtain ⟨front, behind, hjoin⟩ := ih h
      refine ⟨piece ++ separator ++ front, behind, fun text ↦ ?_⟩
      cases hset : pieces.set place text with
      | nil =>
        rw [List.set_eq_nil_iff] at hset
        simp [hset] at h
      | cons next more =>
        have hnext := hjoin text
        rw [hset] at hnext
        rw [List.set_cons_succ, hset, joinWith, List.intercalate_cons_cons, ← joinWith, hnext]
        simp

theorem Rule.exists_render_setSelector {rule : Rule} {place : Nat} {old : Text}
    (h : rule.selectors[place]? = some old) :
    ∃ front behind : Text, ∀ text,
      (rule.setSelector place text).render = front ++ text ++ behind := by
  obtain ⟨front, behind, hjoin⟩ := exists_joinWith_set [','] h
  refine ⟨front, behind ++ [' ', '\x7b'] ++ rule.declarations ++ ['\x7d'], fun text ↦ ?_⟩
  rw [Rule.render, Rule.setSelector, hjoin text]
  simp

end Written

/-! ## Edits -/

section Edits

variable {sheet : Stylesheet} {rule place : Nat} {text : Text}

theorem hasSelector_eq_isSome (sheet : Stylesheet) (rule place : Nat) :
    sheet.hasSelector rule place = (sheet.selector? rule place).isSome := by
  rw [hasSelector, selector?]
  cases sheet.rules[rule]? with
  | none => rfl
  | some found => by_cases h : place < found.selectors.length <;> simp [h]

theorem rules_setSelector (sheet : Stylesheet) (rule place : Nat) (text : Text) :
    (sheet.setSelector rule place text).rules =
      sheet.rules.modify rule fun found ↦ found.setSelector place text := by
  apply List.ext_getElem?
  intro number
  rw [setSelector, rules_mapRules, List.getElem?_mapIdx, List.getElem?_modify]
  by_cases h : rule = number
  · simp [h]
  · simp [h, Ne.symm h]

/-- A selector has the text that it was given, and the others have the texts they had. -/
theorem selector?_setSelector (sheet : Stylesheet) (rule place : Nat) (text : Text)
    (otherRule otherPlace : Nat) :
    (sheet.setSelector rule place text).selector? otherRule otherPlace =
      if rule = otherRule ∧ place = otherPlace then
        (sheet.selector? otherRule otherPlace).map fun _ ↦ text
      else sheet.selector? otherRule otherPlace := by
  rw [selector?, selector?, rules_setSelector, List.getElem?_modify]
  cases sheet.rules[otherRule]? with
  | none => simp
  | some found =>
    by_cases hrule : rule = otherRule
    · by_cases hplace : place = otherPlace
      · simp [hrule, hplace, Rule.setSelector, List.getElem?_set_self']
        rfl
      · simp [hrule, hplace, Rule.setSelector]
    · simp [hrule]

theorem sameButSelectors_setSelector (sheet : Stylesheet) (rule place : Nat) (text : Text) :
    SameButSelectors sheet (sheet.setSelector rule place text) where
  declarations := by
    rw [rules_setSelector]
    apply List.ext_getElem?
    intro number
    rw [List.getElem?_map, List.getElem?_map, List.getElem?_modify]
    cases sheet.rules[number]? with
    | none => rfl
    | some found => by_cases h : rule = number <;> simp [h, Rule.setSelector]
  frame := frame_mapRules _ sheet

theorem SameButSelectors.trans {a b c : Stylesheet} (hab : SameButSelectors a b)
    (hbc : SameButSelectors b c) : SameButSelectors a c where
  declarations := hbc.declarations.trans hab.declarations
  frame := hbc.frame.trans hab.frame

/-- Nothing changes if the selector has this text already or is not there. -/
theorem setSelector_eq_self (h : ∀ old ∈ sheet.selector? rule place, old = text) :
    sheet.setSelector rule place text = sheet := by
  rw [setSelector, mapRules, mapRulesOf_eq_self]
  intro number found hfound
  rw [Nat.zero_add]
  split_ifs with hnumber
  · have hold : ∀ old ∈ found.selectors[place]?, old = text := by
      intro old hold
      apply h
      rw [selector?, rules, ← hnumber, hfound]
      exact hold
    have hset : found.selectors.set place text = found.selectors := by
      by_cases hplace : place < found.selectors.length
      · have hsame : found.selectors[place] = text := hold _ (List.getElem?_eq_getElem hplace)
        rw [← hsame, List.set_getElem_self]
      · exact List.set_eq_of_length_le (Nat.le_of_not_lt hplace)
    rw [Rule.setSelector, hset]
  · rfl

/-- What is written around a selector does not depend on the selector. -/
theorem exists_render_setSelector {old : Text} (h : sheet.selector? rule place = some old) :
    ∃ front behind : Text, ∀ text,
      (sheet.setSelector rule place text).render = front ++ text ++ behind := by
  obtain ⟨found, hfound, hold⟩ := Option.bind_eq_some_iff.1 h
  obtain ⟨before, after, hrule⟩ := exists_render_mapRulesOf 0 sheet.items hfound
  obtain ⟨front, behind, hselector⟩ := Rule.exists_render_setSelector hold
  refine ⟨before ++ front, behind ++ after, fun text ↦ ?_⟩
  rw [setSelector, mapRules, render, hrule]
  · simp [hselector text]
  · intro other found hother
    rw [if_neg (by omega)]

/-- What a selector is given is written where it stood, and nothing else changes. -/
theorem changesOneSelector_edit (sheet : Stylesheet) (edit : Edit) :
    ChangesOneSelector sheet edit (sheet.edit edit) where
  changed h := by
    rw [hasSelector_eq_isSome, Option.isSome_iff_exists] at h
    obtain ⟨old, hold⟩ := h
    rw [Stylesheet.edit, selector?_setSelector, if_pos ⟨rfl, rfl⟩, hold]
    rfl
  others rule place h := by
    rw [Stylesheet.edit, selector?_setSelector, if_neg]
    rintro ⟨rfl, rfl⟩
    exact h rfl
  rest := sameButSelectors_setSelector sheet edit.rule edit.place edit.text
  written old hold := by
    obtain ⟨front, behind, hrender⟩ := exists_render_setSelector hold
    refine ⟨front, behind, ?_, hrender edit.text⟩
    have hself : sheet.setSelector edit.rule edit.place old = sheet := by
      apply setSelector_eq_self
      intro other hother
      exact Option.some.inj (hother.symm.trans hold)
    rw [← hrender old, hself]
  outOfRange h := by
    apply setSelector_eq_self
    intro old hold
    rw [hasSelector_eq_isSome, hold] at h
    simp at h

/-- Any number of edits changes nothing but selectors. -/
theorem sameButSelectors_editAll (sheet : Stylesheet) (edits : List Edit) :
    SameButSelectors sheet (sheet.editAll edits) := by
  induction edits generalizing sheet with
  | nil => exact ⟨rfl, rfl⟩
  | cons edit edits ih =>
    exact (changesOneSelector_edit sheet edit).rest.trans (ih (sheet.edit edit))

/-- After any number of edits a selector has the text that it was given last. -/
theorem selector?_editAll (sheet : Stylesheet) (edits : List Edit) (rule place : Nat) :
    (sheet.editAll edits).selector? rule place =
      (sheet.selector? rule place).map fun old ↦ lastText rule place old edits := by
  induction edits generalizing sheet with
  | nil => simp [editAll, lastText]
  | cons edit edits ih =>
    have hstep : (sheet.editAll (edit :: edits)).selector? rule place =
        ((sheet.edit edit).editAll edits).selector? rule place := rfl
    rw [hstep, ih, Stylesheet.edit, selector?_setSelector]
    by_cases h : edit.rule = rule ∧ edit.place = place
    · rw [if_pos h, Option.map_map]
      simp [lastText, h, Function.comp_def]
    · rw [if_neg h]
      simp [lastText, h]

/-- After any sequence of edits, the next one changes one selector and nothing else, or nothing if
there is no such selector; both ways through the sheet still number its rules alike; and the sheet
is the one at the start with the last text given to each selector. -/
theorem changesOneSelector_editAll (sheet : Stylesheet) (edits : List Edit) :
    (∀ edit, ChangesOneSelector (sheet.editAll edits) edit (sheet.editAll (edits ++ [edit]))) ∧
      (∀ f, ((sheet.editAll edits).mapRules f).rules = (sheet.editAll edits).rules.mapIdx f) ∧
      SameButSelectors sheet (sheet.editAll edits) ∧
      ∀ rule place, (sheet.editAll edits).selector? rule place =
        (sheet.selector? rule place).map fun old ↦ lastText rule place old edits := by
  refine ⟨fun edit ↦ ?_, fun f ↦ rules_mapRules f _, sameButSelectors_editAll sheet edits,
    selector?_editAll sheet edits⟩
  have happend : sheet.editAll (edits ++ [edit]) = (sheet.editAll edits).edit edit := by
    simp [editAll]
  rw [happend]
  exact changesOneSelector_edit _ edit

/-- The second selector of a rule in a group, where text that is no rule has no number. -/
example : edit ⟨[.verbatim ['x'], .group ['@', 'm'] [.rule ⟨[['a'], ['b']], []⟩]]⟩ ⟨0, 1, ['c']⟩ =
    ⟨[.verbatim ['x'], .group ['@', 'm'] [.rule ⟨[['a'], ['c']], []⟩]]⟩ := by
  rfl

end Edits

end ComponentMarkup.Stylesheet
