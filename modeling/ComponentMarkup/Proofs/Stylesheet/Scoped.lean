import ComponentMarkup.Proofs.Stylesheet.Collapsed

/-!
# Scoped style sheets are read back

A sheet is scoped by writing it with a token in front of every selector and collapsing what is
written. Items are written so that they are read again, and reading commutes with collapsing, so
what is read off a scoped sheet is the sheet itself with its texts changed: the token stands in
front of each selector, white space is collapsed, and no item, group or selector comes or goes.
-/

namespace ComponentMarkup.Stylesheet

open Text

section Congr

variable {f f' g : Text → Text}

mutual

theorem Item.mapTexts_congr (item : Item)
    (h : ∀ rule ∈ item.rules, ∀ selector ∈ rule.selectors, f selector = f' selector) :
    item.mapTexts f g = item.mapTexts f' g := by
  cases item with
  | rule rule =>
    have hrule : ∀ selector ∈ rule.selectors, f selector = f' selector :=
      h rule (List.mem_singleton_self rule)
    rw [Item.mapTexts, Item.mapTexts, List.map_congr_left hrule]
  | group prelude items => rw [Item.mapTexts, Item.mapTexts, mapTextsOf_congr items h]
  | verbatim text => rfl

theorem mapTextsOf_congr (items : List Item)
    (h : ∀ rule ∈ rulesOf items, ∀ selector ∈ rule.selectors, f selector = f' selector) :
    mapTextsOf f g items = mapTextsOf f' g items := by
  cases items with
  | nil => rfl
  | cons item rest =>
    have hitem : item.mapTexts f g = item.mapTexts f' g :=
      item.mapTexts_congr fun rule hrule ↦ h rule (List.mem_append_left _ hrule)
    have hrest : mapTextsOf f g rest = mapTextsOf f' g rest :=
      mapTextsOf_congr rest fun rule hrule ↦ h rule (List.mem_append_right _ hrule)
    rw [mapTextsOf, mapTextsOf, hitem, hrest]

end

end Congr

theorem isBlank_head?_of_mem_selectors {head : List Lexeme} {selector : Text} (h : selector ∈ selectors head) :
    ∀ c ∈ selector.head?, Text.isBlank c = false := by
  obtain ⟨part, -, rfl⟩ := List.mem_map.1 (List.mem_filter.1 h).1
  exact isBlank_head?_trim _

/-- No selector that has been read begins with white space. -/
theorem Spelled.isBlank_head?_selector {inGroup : Bool} {items : List Item}
    {input : List Lexeme} (h : Spelled inGroup items input) :
    ∀ rule ∈ rulesOf items, ∀ selector ∈ rule.selectors,
      ∀ c ∈ selector.head?, Text.isBlank c = false := by
  induction h with
  | nil => simp [rulesOf]
  | statement _ _ _ ih => exact ih
  | block _ _ _ _ _ ih =>
    rename_i head body rest items
    intro rule hrule
    rcases List.mem_append.1 hrule with hrule | hrule
    · rw [blockItem] at hrule
      split_ifs at hrule
      · simp [Item.rules] at hrule
      · rw [List.mem_singleton.1 hrule]
        exact fun selector hselector ↦ isBlank_head?_of_mem_selectors hselector
    · exact ih rule hrule
  | group _ _ _ _ _ ihInside ih =>
    intro rule hrule
    rcases List.mem_append.1 hrule with hrule | hrule
    · exact ihInside rule hrule
    · exact ih rule hrule
  | loose => simp [rulesOf, Item.rules]

/-- Characters of the names that elements are scoped by. -/
def isIdChar (c : Char) : Bool := c.isAlphanum || c = '-' || c = '_'

section Token

variable {name : Text}

theorem isBlank_of_isIdChar {c : Char} (h : isIdChar c = true) : Text.isBlank c = false := by
  simp only [isIdChar, Bool.or_eq_true, decide_eq_true_eq] at h
  rcases h with (hc | rfl) | rfl
  · exact isBlank_of_isAlphanum hc
  · rfl
  · rfl

theorem isNeutral_of_isIdChar {c : Char} (h : isIdChar c = true) : isNeutral c = true := by
  simp only [isIdChar, Bool.or_eq_true, decide_eq_true_eq] at h
  rcases h with (hc | rfl) | rfl
  · simp [isNeutral, hc]
  · rfl
  · rfl

theorem exists_token_eq (mode : ScopeMode) (name : Text) :
    ∃ c, isNeutral c = true ∧ Text.isBlank c = false ∧ mode.token name = c :: name := by
  cases mode with
  | byClass => exact ⟨'.', rfl, rfl, rfl⟩
  | byId => exact ⟨'#', rfl, rfl, rfl⟩

theorem isLead_token (mode : ScopeMode) (h : ∀ c ∈ name, isIdChar c = true) :
    IsLead (mode.token name ++ [' ']) := by
  obtain ⟨first, hneutral, hblank, htoken⟩ := exists_token_eq mode name
  have hname : ∀ c ∈ name, isNeutral c = true := fun c hc ↦ isNeutral_of_isIdChar (h c hc)
  have hspace : ∀ c ∈ [' '], isNeutral c = true := by simp [isNeutral]
  rw [htoken]
  constructor
  · exact List.forall_mem_cons.2 ⟨hneutral, List.forall_mem_append.2 ⟨hname, hspace⟩⟩
  · intro c hc
    obtain rfl : first = c := by simpa using hc
    exact hblank

theorem collapseRuns_append_of_not_blank {text : Text}
    (h : ∀ c ∈ text, Text.isBlank c = false) (rest : Text) :
    collapseRuns false (text ++ rest) = text ++ collapseRuns false rest := by
  induction text with
  | nil => rfl
  | cons c text ih =>
    obtain ⟨hc, htext⟩ := List.forall_mem_cons.1 h
    rw [List.cons_append, collapseRuns_cons_of_not_blank hc, ih htext, List.cons_append]

/-- The token and the space behind it stay as they are. -/
theorem collapseRuns_token (mode : ScopeMode) (h : ∀ c ∈ name, isIdChar c = true)
    {selector : Text} (hselector : ∀ c ∈ selector.head?, Text.isBlank c = false) :
    collapseRuns false (mode.token name ++ ' ' :: selector) =
      mode.token name ++ ' ' :: collapseRuns false selector := by
  obtain ⟨first, -, hblank, htoken⟩ := exists_token_eq mode name
  have hnot : ∀ c ∈ mode.token name, Text.isBlank c = false := by
    rw [htoken]
    exact List.forall_mem_cons.2 ⟨hblank, fun c hc ↦ isBlank_of_isIdChar (h c hc)⟩
  rw [collapseRuns_append_of_not_blank hnot]
  cases selector with
  | nil => rfl
  | cons c rest => simp [collapseRuns, hselector c rfl]

end Token

/-- Scoping reaches every selector and nothing else. -/
theorem read_scope (mode : ScopeMode) {name text : Text} {sheet : Stylesheet}
    (h : read text = .ok sheet) (hblank : isAllBlank text = false)
    (hlayout : ∀ c ∈ text, Text.isBlank c = true → isLayout c = true)
    (hselectors : ∀ rule ∈ sheet.rules, rule.selectors ≠ [])
    (hname : ∀ c ∈ name, isIdChar c = true) :
    ∃ css, scope mode name text = .ok css ∧
      read css = .ok (sheet.mapTexts
        (fun selector ↦ mode.token name ++ ' ' :: collapseRuns false selector)
        (collapseRuns false)) := by
  let lead := mode.token name ++ [' ']
  have hrules : ∀ rule ∈ rulesOf sheet.items, rule.IsWritable lead := by
    intro rule hrule
    obtain ⟨first, rest, hcons⟩ := List.exists_cons_of_ne_nil (hselectors rule hrule)
    refine ⟨first, rest, hcons, ?_⟩
    obtain ⟨c, hneutral, -, htoken⟩ := exists_token_eq mode name
    simpa [lead, htoken] using ne_of_isNeutral hneutral rfl
  obtain ⟨input, hspelled, hclean⟩ := exists_spelled_of_read h hlayout
  obtain ⟨output, houtput⟩ := exists_isWritten hspelled hclean (isLead_token mode hname) hrules
  have hscoped : sheet.scopeTo (mode.token name) = ⟨mapTextsOf (lead ++ ·) id sheet.items⟩ := by
    simp [scopeTo_eq_mapTexts, mapTexts, lead]
  refine ⟨collapse (sheet.scopeTo (mode.token name)).render, ?_, ?_⟩
  · rw [scope, hblank, h]
    rfl
  · rw [hscoped, render, ← houtput.text, read_collapse houtput.spelled houtput.clean, mapTexts,
      mapTextsOf_mapTextsOf, mapTexts]
    congr 2
    apply mapTextsOf_congr
    intro rule hrule selector hselector
    have hhead := hspelled.isBlank_head?_selector rule hrule selector hselector
    rw [Function.comp_apply, ← collapseRuns_token mode hname hhead]
    simp

/-- A sheet read off a text, and scoped to the class of an element. -/
theorem read_scope_framedText :
    read framedText = .ok framedSheet ∧ isAllBlank framedText = false ∧
      (∀ c ∈ framedText, Text.isBlank c = true → isLayout c = true) ∧
      (∀ rule ∈ framedSheet.rules, rule.selectors ≠ []) ∧
      (∀ c ∈ ['r', '1'], isIdChar c = true) ∧
      ∃ css, scope .byClass ['r', '1'] framedText = .ok css ∧
        read css = .ok (framedSheet.mapTexts
          (fun selector ↦ ['.', 'r', '1'] ++ ' ' :: collapseRuns false selector)
          (collapseRuns false)) := by
  have hblank : isAllBlank framedText = false := by with_unfolding_all rfl
  have hselectors : ∀ rule ∈ framedSheet.rules, rule.selectors ≠ [] := by decide
  have hname : ∀ c ∈ ['r', '1'], isIdChar c = true := by simp [isIdChar]
  exact ⟨read_framedText, hblank, isLayout_framedText, hselectors, hname,
    read_scope .byClass read_framedText hblank isLayout_framedText hselectors hname⟩

end ComponentMarkup.Stylesheet
