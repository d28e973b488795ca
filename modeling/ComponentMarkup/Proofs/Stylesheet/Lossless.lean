import ComponentMarkup.Proofs.Stylesheet.Written

/-!
# What writing a style sheet keeps

Reading drops the characters that delimit items and trims what stands between them; writing puts
the delimiters back, with white space of its own. White space aside, what is written is therefore
what was read, character by character, in every item and at every depth of groups. Only an empty
item in a list of selectors gets lost, and the comma next to it with it.
-/

namespace ComponentMarkup

namespace Text

/-- What is left of a text without its white space. -/
def withoutBlanks (text : Text) : Text := text.filter (!isBlank ·)

section WithoutBlanks

@[simp] theorem withoutBlanks_nil : withoutBlanks [] = [] := rfl

@[simp] theorem withoutBlanks_cons (c : Char) (text : Text) :
    withoutBlanks (c :: text) =
      if isBlank c then withoutBlanks text else c :: withoutBlanks text := by
  by_cases hc : isBlank c = true <;> simp [withoutBlanks, hc]

@[simp] theorem withoutBlanks_append (s t : Text) :
    withoutBlanks (s ++ t) = withoutBlanks s ++ withoutBlanks t := List.filter_append s t

theorem withoutBlanks_of_blank {text : Text} (h : ∀ c ∈ text, isBlank c = true) :
    withoutBlanks text = [] := by
  apply List.filter_eq_nil_iff.2
  intro c hc
  simp [h c hc]

@[simp] theorem withoutBlanks_trim (text : Text) :
    withoutBlanks (trim text) = withoutBlanks text := by
  obtain ⟨before, after, hbefore, hafter, htext⟩ := exists_blanks_trim text
  calc
    withoutBlanks (trim text) = withoutBlanks (before ++ trim text ++ after) := by
      simp [withoutBlanks_of_blank hbefore, withoutBlanks_of_blank hafter]
    _ = withoutBlanks text := by rw [← htext]

theorem withoutBlanks_joinWith (separator : Text) (pieces : List Text) :
    withoutBlanks (joinWith separator pieces) =
      joinWith (withoutBlanks separator) (pieces.map withoutBlanks) := by
  induction pieces with
  | nil => rfl
  | cons piece pieces ih =>
    cases pieces with
    | nil => simp [joinWith]
    | cons next pieces =>
      simp only [joinWith, List.map_cons, List.intercalate_cons_cons, withoutBlanks_append] at ih ⊢
      rw [ih]

end WithoutBlanks

end Text

namespace Stylesheet

open Text

/-! ## Lists of selectors -/

/-- The texts between the commas of a list of selectors, the empty ones included. -/
def listItems (list : List Lexeme) : List Text :=
  ((parts? list).getD [list]).map fun part ↦ trim (textOf part)

/-- One of the items between the commas is empty. A list of nothing but white space has no item. -/
def HasEmptyItem (list : List Lexeme) : Prop := [] ∈ listItems list ∧ listItems list ≠ [[]]

/-- The list of selectors of an item with this prelude, if the item is a rule. -/
def Item.selectorList (head : List Lexeme) : Item → List (List Lexeme)
  | .rule _ => [head]
  | .group _ _ => []
  | .verbatim _ => []

/-- The lists of selectors of the rules that are read, from left to right. -/
def selectorLists (inGroup : Bool) (input : List Lexeme) : List (List Lexeme) :=
  match _h : reading? inGroup input with
  | none => []
  | some (.whole item rest) =>
    item.selectorList (prelude (dropLayout input)).1 ++ selectorLists inGroup rest
  | some (.group _ body) =>
    match _hclose : afterGroup? (readItems true body).1.2 with
    | none => []
    | some rest => selectorLists true body ++ selectorLists inGroup rest
termination_by input.length
decreasing_by
  · exact length_lt_of_reading? _h
  · exact length_lt_of_reading? _h
  · have hbody : body.length < input.length := length_lt_of_reading? _h
    have hleft := (readItems true body).2
    have hrest := length_lt_of_afterGroup? _hclose
    omega

section Lists

variable {inGroup : Bool} {list input : List Lexeme}

theorem selectors_eq_listItems (h : [] ∉ listItems list) : selectors list = listItems list := by
  apply List.filter_eq_self.2
  rintro item hitem
  cases item with
  | nil => exact absurd hitem h
  | cons c item => rfl

/-- Unless an item is empty, the selectors of a list are written as its items. -/
theorem joinWith_selectors (h : ¬ HasEmptyItem list) :
    joinWith [','] (selectors list) = joinWith [','] (listItems list) := by
  by_cases hempty : [] ∈ listItems list
  · have hblank : listItems list = [[]] := by
      by_contra hne
      exact h ⟨hempty, hne⟩
    have hselectors : selectors list = (listItems list).filter (!·.isEmpty) := rfl
    rw [hselectors, hblank]
    rfl
  · rw [selectors_eq_listItems hempty]

/-- White space aside, a list is its items with commas between them. -/
theorem withoutBlanks_joinWith_listItems (list : List Lexeme) :
    withoutBlanks (joinWith [','] (listItems list)) = withoutBlanks (textOf list) := by
  have htrim : (listItems list).map withoutBlanks =
      (((parts? list).getD [list]).map textOf).map withoutBlanks := by
    simp [listItems]
  calc
    withoutBlanks (joinWith [','] (listItems list)) =
        withoutBlanks (joinWith [','] (((parts? list).getD [list]).map textOf)) := by
      rw [withoutBlanks_joinWith, withoutBlanks_joinWith, htrim]
    _ = withoutBlanks (textOf list) := by rw [← textOf_intercalate, intercalate_getD_parts?]

theorem selectorLists_of_none (h : reading? inGroup input = none) :
    selectorLists inGroup input = [] := by
  rw [selectorLists]
  split <;> simp_all

theorem selectorLists_of_unclosed {prelude : Text} {body : List Lexeme}
    (h : reading? inGroup input = some (.group prelude body))
    (hclose : afterGroup? (readItems true body).1.2 = none) :
    selectorLists inGroup input = [] := by
  rw [selectorLists]
  split
  · rfl
  · simp_all
  · rename_i prelude' body' h'
    rw [h, Option.some.injEq, Reading.group.injEq] at h'
    obtain ⟨rfl, rfl⟩ := h'
    split
    · rfl
    · simp_all

theorem selectorLists_of_whole {item : Item} {rest : List Lexeme}
    (h : reading? inGroup input = some (.whole item rest)) :
    selectorLists inGroup input =
      item.selectorList (prelude (dropLayout input)).1 ++ selectorLists inGroup rest := by
  rw [selectorLists]
  split
  · simp_all
  · rename_i item' rest' h'
    rw [h, Option.some.injEq, Reading.whole.injEq] at h'
    obtain ⟨rfl, rfl⟩ := h'
    rfl
  · simp_all

theorem selectorLists_of_group {prelude : Text} {body rest : List Lexeme}
    (h : reading? inGroup input = some (.group prelude body))
    (hclose : afterGroup? (readItems true body).1.2 = some rest) :
    selectorLists inGroup input = selectorLists true body ++ selectorLists inGroup rest := by
  rw [selectorLists]
  split
  · simp_all
  · simp_all
  · rename_i prelude' body' h'
    rw [h, Option.some.injEq, Reading.group.injEq] at h'
    obtain ⟨rfl, rfl⟩ := h'
    split
    · simp_all
    · simp_all

/-- The rules have their selectors from these lists. -/
theorem map_selectors_rulesOf_readItems (inGroup : Bool) (input : List Lexeme) :
    (rulesOf (readItems inGroup input).1.1).map Rule.selectors =
      (selectorLists inGroup input).map selectors := by
  induction inGroup, input using readItems_induction with
  | none h => rw [readItems_of_none h, selectorLists_of_none h]; rfl
  | unclosed h hclose =>
    rw [readItems_of_unclosed h hclose, selectorLists_of_unclosed h hclose]
    rfl
  | whole h ih =>
    rw [readItems_of_whole h, selectorLists_of_whole h, rulesOf, List.map_append, List.map_append,
      ih]
    congr 1
    cases readsAs_of_reading? h with
    | statement => rfl
    | block hgap hhead =>
      rw [List.append_assoc, List.cons_append,
        prelude_dropLayout hgap hhead (prelude_of_ends rfl _), blockItem]
      split_ifs <;> rfl
    | loose => rfl
  | group h hclose ihInside ih =>
    rw [readItems_of_group h hclose, selectorLists_of_group h hclose, rulesOf, Item.rules,
      List.map_append, List.map_append, ihInside, ih]

end Lists

/-! ## Items -/

section Items

variable {inGroup : Bool} {head body gap input : List Lexeme}

theorem withoutBlanks_gap (h : ∀ lexeme ∈ gap, lexeme.isGap = true) :
    withoutBlanks (textOf gap) = [] := by
  apply withoutBlanks_of_blank
  intro c hc
  obtain ⟨lexeme, hlexeme, hc⟩ := List.mem_flatMap.1 hc
  have hgap := h lexeme hlexeme
  cases lexeme with
  | quoted text => simp [Lexeme.isGap] at hgap
  | plain d =>
    rw [List.mem_singleton.1 hc]
    exact isBlank_of_isLayout hgap

theorem withoutBlanks_dropLayout (input : List Lexeme) :
    withoutBlanks (textOf (dropLayout input)) = withoutBlanks (textOf input) := by
  have hgap : ∀ lexeme ∈ input.takeWhile Lexeme.isGap, lexeme.isGap = true :=
    fun _ hlexeme ↦ List.mem_takeWhile_imp hlexeme
  calc
    withoutBlanks (textOf (dropLayout input)) =
        withoutBlanks (textOf (input.takeWhile Lexeme.isGap ++ dropLayout input)) := by
      simp [withoutBlanks_gap hgap]
    _ = withoutBlanks (textOf input) := by
      rw [dropLayout_eq, List.takeWhile_append_dropWhile]

/-- The line breaks between items are white space. -/
theorem withoutBlanks_renderItems_cons (item : Item) (items : List Item) :
    withoutBlanks (renderItems (item :: items)) =
      withoutBlanks item.render ++ withoutBlanks (renderItems items) := by
  cases items with
  | nil => simp [renderItems]
  | cons next items =>
    rw [renderItems_cons_cons, withoutBlanks_append]
    rfl

@[simp] theorem isBlank_delimiters :
    Text.isBlank '\x7b' = false ∧ Text.isBlank '\x7d' = false ∧ Text.isBlank ';' = false :=
  ⟨rfl, rfl, rfl⟩

/-- A prelude and a block are written as they stand. -/
theorem withoutBlanks_blockItem
    (h : ∀ list ∈ (blockItem head body).selectorList head, ¬ HasEmptyItem list) :
    withoutBlanks (blockItem head body).render =
      withoutBlanks (textOf head ++ '\x7b' :: textOf body ++ ['\x7d']) := by
  rw [blockItem] at h ⊢
  split_ifs at h ⊢ with hat
  · simp [Item.render]
  · have hitems : ¬ HasEmptyItem head := h head (List.mem_singleton_self head)
    simp [Item.render, Rule.render, joinWith_selectors hitems, withoutBlanks_joinWith_listItems]

/-- An item is written as it was read. -/
theorem withoutBlanks_of_whole {item : Item} {rest : List Lexeme}
    (h : ReadsAs inGroup input (.whole item rest))
    (hlists : ∀ list ∈ item.selectorList (prelude (dropLayout input)).1, ¬ HasEmptyItem list) :
    withoutBlanks (textOf input) = withoutBlanks item.render ++ withoutBlanks (textOf rest) := by
  cases h with
  | statement hgap hhead =>
    simp [withoutBlanks_gap hgap, Item.render, Lexeme.text]
  | block hgap hhead hkind hbody =>
    rw [List.append_assoc, List.cons_append,
      prelude_dropLayout hgap hhead (prelude_of_ends rfl _)] at hlists
    simp [withoutBlanks_blockItem hlists, withoutBlanks_gap hgap, Lexeme.text]
  | loose hgap hhead =>
    simp [withoutBlanks_gap hgap, Item.render, Lexeme.text]

/-- What has been read is written as it was read, up to what is left. -/
theorem withoutBlanks_readItems (inGroup : Bool) (input : List Lexeme)
    (h : ∀ list ∈ selectorLists inGroup input, ¬ HasEmptyItem list) :
    withoutBlanks (textOf input) =
      withoutBlanks (renderItems (readItems inGroup input).1.1) ++
        withoutBlanks (textOf (readItems inGroup input).1.2) := by
  induction inGroup, input using readItems_induction with
  | none hnone => rw [readItems_of_none hnone]; rfl
  | unclosed hgroup hclose => rw [readItems_of_unclosed hgroup hclose]; rfl
  | whole hwhole ih =>
    rw [selectorLists_of_whole hwhole] at h
    obtain ⟨hitem, hrest⟩ := List.forall_mem_append.1 h
    rw [withoutBlanks_of_whole (readsAs_of_reading? hwhole) hitem, ih hrest,
      readItems_of_whole hwhole, withoutBlanks_renderItems_cons, List.append_assoc]
  | @group inGroup input prelude body rest hgroup hclose ihInside ih =>
    rw [selectorLists_of_group hgroup hclose] at h
    obtain ⟨hinside, hrest⟩ := List.forall_mem_append.1 h
    have hbody : withoutBlanks (textOf body) =
        withoutBlanks (renderItems (readItems true body).1.1) ++
          '\x7d' :: withoutBlanks (textOf rest) := by
      rw [ihInside hinside, ← withoutBlanks_dropLayout (readItems true body).1.2,
        afterGroup?_eq_some_iff.1 hclose]
      rfl
    rw [readItems_of_group hgroup hclose, withoutBlanks_renderItems_cons]
    cases readsAs_of_reading? hgroup with
    | group hgap hhead hkind =>
      simp [withoutBlanks_gap hgap, hbody, ih hrest, Item.render, Lexeme.text]

end Items

/-- The lists of selectors of the rules that a text holds. -/
def selectorListsOf (text : Text) : List (List Lexeme) :=
  selectorLists false (lexemes (stripComments text))

/-- Writing a sheet that has been read loses and invents nothing: if none of the lists that its
rules have their selectors from has an empty item, what is written is the text without its comments,
white space aside. -/
theorem map_selectors_rules_and_withoutBlanks_render {text : Text} {sheet : Stylesheet}
    (h : read text = .ok sheet) (hitems : ∀ list ∈ selectorListsOf text, ¬ HasEmptyItem list) :
    sheet.rules.map Rule.selectors = (selectorListsOf text).map selectors ∧
      withoutBlanks sheet.render = withoutBlanks (stripComments text) := by
  obtain ⟨hread, hblank⟩ := readItems_of_read h
  constructor
  · rw [rules, ← hread, map_selectors_rulesOf_readItems, selectorListsOf]
  · calc
      withoutBlanks sheet.render =
          withoutBlanks (renderItems (readItems false (lexemes (stripComments text))).1.1) := by
        rw [hread, render]
      _ = withoutBlanks (textOf (lexemes (stripComments text))) := by
        rw [withoutBlanks_readItems false _ hitems, withoutBlanks_of_blank hblank, List.append_nil]
      _ = withoutBlanks (stripComments text) := by rw [textOf_lexemes]

/-- A list of two selectors, a group with a rule in it, and text that is no rule. -/
theorem withoutBlanks_render_framedText :
    read framedText = .ok framedSheet ∧
      (∀ list ∈ selectorListsOf framedText, ¬ HasEmptyItem list) ∧
      framedSheet.rules.map Rule.selectors = (selectorListsOf framedText).map selectors ∧
      withoutBlanks framedSheet.render = withoutBlanks (stripComments framedText) := by
  have hitems : ∀ list ∈ selectorListsOf framedText, ¬ HasEmptyItem list := by
    have hall : (selectorListsOf framedText).all
        (fun list ↦ !(listItems list).contains []) = true := by
      with_unfolding_all rfl
    intro list hlist hempty
    simpa [hempty.1] using List.all_eq_true.1 hall list hlist
  exact ⟨read_framedText, hitems,
    map_selectors_rules_and_withoutBlanks_render read_framedText hitems⟩

/-- An empty item gets lost, and one of the commas next to it. -/
example : read ['a', ',', ',', 'b', '\x7b', '\x7d'] = .ok ⟨[.rule ⟨[['a'], ['b']], []⟩]⟩ := by
  with_unfolding_all rfl

end Stylesheet

end ComponentMarkup
