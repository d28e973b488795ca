import ComponentMarkup.Proofs.Stylesheet.Selectors

/-!
# The grammar of style sheets

`Spelled` is the grammar of items as a relation between items and the lexemes they are written
with. Reading is sound and complete for it: what is read off an input is spelled by the part of the
input that is used up, and what is spelled is read, where nothing follows it that goes on with it.
-/

namespace ComponentMarkup.Stylesheet

open Text

/-- White space that may stand in front of an item. -/
def Lexeme.isGap : Lexeme → Bool
  | plain c => isLayout c
  | quoted _ => false

theorem dropLayout_eq (input : List Lexeme) : dropLayout input = input.dropWhile Lexeme.isGap := by
  rw [dropLayout]
  congr 1

/-- What an item begins with. -/
structure OpensItem (head : List Lexeme) : Prop where
  isHead : IsHead head
  ne_nil : head ≠ []
  first : ∀ lexeme ∈ head.head?, lexeme.isGap = false

/-- The prelude of an at-rule whose block holds items. -/
def OpensGroup (head : List Lexeme) : Prop :=
  isAtRule head = true ∧ isGrouping (trim (textOf head)) = true

/-- The grammar of items, inside a group or outside. -/
inductive Spelled : (inGroup : Bool) → List Item → List Lexeme → Prop
  | nil {inGroup : Bool} {gap : List Lexeme} (hgap : ∀ lexeme ∈ gap, lexeme.isGap = true) :
    Spelled inGroup [] gap
  | statement {inGroup : Bool} {gap head rest : List Lexeme} {items : List Item}
    (hgap : ∀ lexeme ∈ gap, lexeme.isGap = true) (hhead : OpensItem head)
    (hrest : Spelled inGroup items rest) :
    Spelled inGroup (.verbatim (trim (textOf head) ++ [';']) :: items)
      (gap ++ head ++ .plain ';' :: rest)
  | block {inGroup : Bool} {gap head body rest : List Lexeme} {items : List Item}
    (hgap : ∀ lexeme ∈ gap, lexeme.isGap = true) (hhead : OpensItem head)
    (hkind : ¬ OpensGroup head) (hbody : IsBlock body) (hrest : Spelled inGroup items rest) :
    Spelled inGroup (blockItem head body :: items)
      (gap ++ head ++ .plain '\x7b' :: body ++ .plain '\x7d' :: rest)
  | group {inGroup : Bool} {gap head body rest : List Lexeme} {inside items : List Item}
    (hgap : ∀ lexeme ∈ gap, lexeme.isGap = true) (hhead : OpensItem head)
    (hkind : OpensGroup head) (hbody : Spelled true inside body)
    (hrest : Spelled inGroup items rest) :
    Spelled inGroup (.group (trim (textOf head)) inside :: items)
      (gap ++ head ++ .plain '\x7b' :: body ++ .plain '\x7d' :: rest)
  /-- A prelude that the closing brace of a group follows. -/
  | loose {gap head : List Lexeme} (hgap : ∀ lexeme ∈ gap, lexeme.isGap = true)
    (hhead : OpensItem head) : Spelled true [.verbatim (trim (textOf head))] (gap ++ head)

/-- Where the items of a group end, and those of a whole sheet. -/
def Ends : (inGroup : Bool) → List Lexeme → Prop
  | true, input => ∃ rest, input = .plain '\x7d' :: rest
  | false, input => input = []

/-! ## One item -/

/-- What an item turns out to be, told by the input it is read off. -/
inductive ReadsAs : (inGroup : Bool) → List Lexeme → Reading → Prop
  | statement {inGroup : Bool} {gap head rest : List Lexeme}
    (hgap : ∀ lexeme ∈ gap, lexeme.isGap = true) (hhead : OpensItem head) :
    ReadsAs inGroup (gap ++ head ++ .plain ';' :: rest)
      (.whole (.verbatim (trim (textOf head) ++ [';'])) rest)
  | block {inGroup : Bool} {gap head body rest : List Lexeme}
    (hgap : ∀ lexeme ∈ gap, lexeme.isGap = true) (hhead : OpensItem head)
    (hkind : ¬ OpensGroup head) (hbody : IsBlock body) :
    ReadsAs inGroup (gap ++ head ++ .plain '\x7b' :: body ++ .plain '\x7d' :: rest)
      (.whole (blockItem head body) rest)
  | group {inGroup : Bool} {gap head rest : List Lexeme}
    (hgap : ∀ lexeme ∈ gap, lexeme.isGap = true) (hhead : OpensItem head)
    (hkind : OpensGroup head) :
    ReadsAs inGroup (gap ++ head ++ .plain '\x7b' :: rest) (.group (trim (textOf head)) rest)
  | loose {gap head rest : List Lexeme} (hgap : ∀ lexeme ∈ gap, lexeme.isGap = true)
    (hhead : OpensItem head) :
    ReadsAs true (gap ++ head ++ .plain '\x7d' :: rest)
      (.whole (.verbatim (trim (textOf head))) (.plain '\x7d' :: rest))

section Items

variable {inGroup : Bool}

theorem dropLayout_append {gap : List Lexeme} (h : ∀ lexeme ∈ gap, lexeme.isGap = true)
    (rest : List Lexeme) : dropLayout (gap ++ rest) = dropLayout rest := by
  rw [dropLayout_eq, dropLayout_eq, List.dropWhile_append_of_pos h]

/-- The prelude of an item, white space in front of it aside. -/
theorem prelude_dropLayout {gap head rest : List Lexeme}
    (hgap : ∀ lexeme ∈ gap, lexeme.isGap = true) (hhead : OpensItem head)
    (hrest : prelude rest = ([], rest)) :
    prelude (dropLayout (gap ++ head ++ rest)) = (head, rest) := by
  obtain ⟨first, more, rfl⟩ := List.exists_cons_of_ne_nil hhead.ne_nil
  have hdrop : dropLayout (gap ++ (first :: more) ++ rest) = (first :: more) ++ rest := by
    rw [List.append_assoc, dropLayout_append hgap, dropLayout_eq]
    simp [hhead.first first rfl]
  rw [hdrop, prelude_append_of_isHead hhead.isHead hrest]

/-- An item is read from its prelude on. -/
theorem reading?_eq {gap head rest : List Lexeme} (hgap : ∀ lexeme ∈ gap, lexeme.isGap = true)
    (hhead : OpensItem head) (hrest : prelude rest = ([], rest)) :
    reading? inGroup (gap ++ head ++ rest) = afterPrelude? inGroup head rest := by
  rw [reading?, prelude_dropLayout hgap hhead hrest]
  simp [hhead.ne_nil]

/-- All that an item can turn out to be. -/
theorem readsAs_of_reading? {input : List Lexeme} {reading : Reading}
    (h : reading? inGroup input = some reading) : ReadsAs inGroup input reading := by
  let gap := input.takeWhile Lexeme.isGap
  let head := (prelude (dropLayout input)).1
  let rest := (prelude (dropLayout input)).2
  have hgap : ∀ lexeme ∈ gap, lexeme.isGap = true := fun _ hlexeme ↦ List.mem_takeWhile_imp hlexeme
  have hinput : input = gap ++ head ++ rest := by
    rw [List.append_assoc, prelude_append, dropLayout_eq, List.takeWhile_append_dropWhile]
  have hne : head ≠ [] := by
    intro hnil
    simp [reading?, head, hnil] at h
  have hhead : OpensItem head := by
    refine ⟨isHead_prelude _, hne, fun lexeme hlexeme ↦ ?_⟩
    have hdrop : (input.dropWhile Lexeme.isGap).head? = some lexeme := by
      rw [← dropLayout_eq, ← prelude_append (dropLayout input)]
      exact List.head?_append_of_ne_nil _ hne ▸ hlexeme
    have hnot := List.head?_dropWhile_not Lexeme.isGap input
    rw [hdrop] at hnot
    simpa using hnot
  have hafter : afterPrelude? inGroup head rest = some reading := by
    simpa [reading?, head, hne] using h
  rw [hinput]
  clear_value head rest
  unfold afterPrelude? at hafter
  split at hafter
  · rename_i c more
    split_ifs at hafter with hsemicolon hbrace hkind hend
    · rw [← Option.some.inj hafter, hsemicolon]
      exact .statement hgap hhead
    · rw [← Option.some.inj hafter, hbrace]
      exact .group hgap hhead (by simpa [OpensGroup] using hkind)
    · obtain ⟨⟨body, after⟩, hbody, hreading⟩ := Option.map_eq_some_iff.1 hafter
      obtain ⟨hblock, hmore⟩ := isBlock_of_block? hbody
      rw [← hreading, hbrace, hmore]
      have hkind : ¬ OpensGroup head := by simpa [OpensGroup] using hkind
      rw [← List.cons_append, ← List.append_assoc]
      exact .block hgap hhead hkind hblock
    · simp only [Bool.and_eq_true, decide_eq_true_eq] at hend
      rw [← Option.some.inj hafter, hend.1, hend.2]
      exact .loose hgap hhead
  · simp at hafter

theorem reading?_of_readsAs {input : List Lexeme} {reading : Reading}
    (h : ReadsAs inGroup input reading) : reading? inGroup input = some reading := by
  cases h with
  | statement hgap hhead =>
    rw [reading?_eq hgap hhead (prelude_of_ends rfl _)]
    rfl
  | block hgap hhead hkind hbody =>
    rename_i head body rest
    have hkind : (isAtRule head && isGrouping (trim (textOf head))) = false := by
      simpa [OpensGroup] using hkind
    rw [List.append_assoc, List.cons_append, reading?_eq hgap hhead (prelude_of_ends rfl _)]
    simp [afterPrelude?, hkind, block?_of_isBlock hbody]
  | group hgap hhead hkind =>
    rw [reading?_eq hgap hhead (prelude_of_ends rfl _)]
    simp [afterPrelude?, hkind.1, hkind.2]
  | loose hgap hhead =>
    rw [reading?_eq hgap hhead (prelude_of_ends rfl _)]
    rfl

theorem Ends.dropLayout_eq {input : List Lexeme} (h : Ends inGroup input) :
    dropLayout input = input := by
  cases inGroup with
  | true =>
    obtain ⟨rest, rfl⟩ := h
    rfl
  | false =>
    obtain rfl : input = [] := h
    rfl

/-- Nothing is read where the items end. -/
theorem reading?_of_ends {gap rest : List Lexeme} (hgap : ∀ lexeme ∈ gap, lexeme.isGap = true)
    (h : Ends inGroup rest) : reading? inGroup (gap ++ rest) = none := by
  have hprelude : (prelude rest).1 = [] := by
    cases inGroup with
    | true =>
      obtain ⟨more, rfl⟩ := h
      rw [prelude_of_ends rfl]
    | false =>
      obtain rfl : rest = [] := h
      rw [prelude]
  simp [reading?, dropLayout_append hgap, h.dropLayout_eq, hprelude]

theorem Ends.reading?_eq {rest : List Lexeme} (h : Ends inGroup rest) :
    reading? inGroup rest = none :=
  reading?_of_ends (List.forall_mem_nil _) h

end Items

/-! ## Lists of items -/

section Lists

variable {inGroup : Bool} {input : List Lexeme}

theorem readItems_of_none (h : reading? inGroup input = none) :
    (readItems inGroup input).1 = ([], input) := by
  rw [readItems]
  split
  · rfl
  all_goals simp_all

theorem readItems_of_whole {item : Item} {rest : List Lexeme}
    (h : reading? inGroup input = some (.whole item rest)) :
    (readItems inGroup input).1 =
      (item :: (readItems inGroup rest).1.1, (readItems inGroup rest).1.2) := by
  rw [readItems]
  split
  · simp_all
  · rename_i item' rest' h'
    rw [h, Option.some.injEq, Reading.whole.injEq] at h'
    obtain ⟨rfl, rfl⟩ := h'
    rfl
  · simp_all

theorem readItems_of_group {prelude : Text} {body rest : List Lexeme}
    (h : reading? inGroup input = some (.group prelude body))
    (hclose : afterGroup? (readItems true body).1.2 = some rest) :
    (readItems inGroup input).1 =
      (.group prelude (readItems true body).1.1 :: (readItems inGroup rest).1.1,
        (readItems inGroup rest).1.2) := by
  rw [readItems]
  split
  · simp_all
  · simp_all
  · rename_i prelude' body' h'
    rw [h, Option.some.injEq, Reading.group.injEq] at h'
    obtain ⟨rfl, rfl⟩ := h'
    simp only
    split
    · rename_i hnone
      simp [hclose] at hnone
    · rename_i rest' hrest
      rw [hclose, Option.some.injEq] at hrest
      rw [hrest]

theorem readItems_of_unclosed {prelude : Text} {body : List Lexeme}
    (h : reading? inGroup input = some (.group prelude body))
    (hclose : afterGroup? (readItems true body).1.2 = none) :
    (readItems inGroup input).1 = ([], input) := by
  rw [readItems]
  split
  · simp_all
  · simp_all
  · rename_i prelude' body' h'
    rw [h, Option.some.injEq, Reading.group.injEq] at h'
    obtain ⟨rfl, rfl⟩ := h'
    simp only
    split
    · rfl
    · rename_i rest' hrest
      simp [hclose] at hrest

/-- Nothing is read, or one item and what follows it, or a group with what it holds and what
follows it. -/
theorem readItems_induction {motive : Bool → List Lexeme → Prop}
    (none : ∀ {inGroup input}, reading? inGroup input = none → motive inGroup input)
    (unclosed : ∀ {inGroup input prelude body},
      reading? inGroup input = some (.group prelude body) →
      afterGroup? (readItems true body).1.2 = .none → motive inGroup input)
    (whole : ∀ {inGroup input item rest}, reading? inGroup input = some (.whole item rest) →
      motive inGroup rest → motive inGroup input)
    (group : ∀ {inGroup input prelude body rest},
      reading? inGroup input = some (.group prelude body) →
      afterGroup? (readItems true body).1.2 = some rest → motive true body →
      motive inGroup rest → motive inGroup input)
    (inGroup : Bool) (input : List Lexeme) : motive inGroup input := by
  cases h : reading? inGroup input with
  | none => exact none h
  | some reading =>
    have hlength : reading.rest.length < input.length := length_lt_of_reading? h
    cases reading with
    | whole item rest =>
      exact whole h (readItems_induction none unclosed whole group inGroup rest)
    | group prelude body =>
      cases hclose : afterGroup? (readItems true body).1.2 with
      | none => exact unclosed h hclose
      | some rest =>
        have hrest : rest.length < input.length := by
          have hshorter := length_lt_of_afterGroup? hclose
          have hleft := (readItems true body).2
          have hbody : body.length < input.length := hlength
          omega
        exact group h hclose (readItems_induction none unclosed whole group true body)
          (readItems_induction none unclosed whole group inGroup rest)
termination_by input.length
decreasing_by all_goals assumption

theorem afterGroup?_eq_some_iff {rest : List Lexeme} :
    afterGroup? input = some rest ↔ dropLayout input = .plain '\x7d' :: rest := by
  rw [afterGroup?]
  split
  · rename_i c more heq
    rw [heq]
    by_cases hc : c = '\x7d' <;> simp [hc]
  · rename_i hother
    simp only [reduceCtorEq, false_iff]
    exact fun heq ↦ hother _ _ heq

/-- Reading is complete: items that are spelled are read, up to where the items end. -/
theorem readItems_of_spelled {items : List Item} (h : Spelled inGroup items input)
    {rest : List Lexeme} (hrest : Ends inGroup rest) :
    (readItems inGroup (input ++ rest)).1.1 = items ∧
      dropLayout (readItems inGroup (input ++ rest)).1.2 = rest := by
  induction h generalizing rest with
  | nil hgap =>
    rw [readItems_of_none (reading?_of_ends hgap hrest)]
    exact ⟨rfl, by rw [dropLayout_append hgap, hrest.dropLayout_eq]⟩
  | @statement inGroup gap head more items hgap hhead _ ih =>
    obtain ⟨hitems, hend⟩ := ih hrest
    have hreads : ReadsAs inGroup (gap ++ head ++ .plain ';' :: more ++ rest)
        (.whole (.verbatim (trim (textOf head) ++ [';'])) (more ++ rest)) := by
      rw [List.append_assoc, List.cons_append]
      exact .statement hgap hhead
    rw [readItems_of_whole (reading?_of_readsAs hreads)]
    exact ⟨by rw [hitems], hend⟩
  | @block inGroup gap head body more items hgap hhead hkind hbody _ ih =>
    obtain ⟨hitems, hend⟩ := ih hrest
    have hreads : ReadsAs inGroup
        (gap ++ head ++ .plain '\x7b' :: body ++ .plain '\x7d' :: more ++ rest)
        (.whole (blockItem head body) (more ++ rest)) := by
      rw [List.append_assoc _ (.plain '\x7d' :: more), List.cons_append]
      exact .block hgap hhead hkind hbody
    rw [readItems_of_whole (reading?_of_readsAs hreads)]
    exact ⟨by rw [hitems], hend⟩
  | @group inGroup gap head body more inside items hgap hhead hkind _ _ ihInside ih =>
    have hends : Ends true (.plain '\x7d' :: (more ++ rest)) := ⟨_, rfl⟩
    obtain ⟨hinside, hclose⟩ := ihInside hends
    obtain ⟨hitems, hend⟩ := ih hrest
    have hreads : ReadsAs inGroup
        (gap ++ head ++ .plain '\x7b' :: body ++ .plain '\x7d' :: more ++ rest)
        (.group (trim (textOf head)) (body ++ .plain '\x7d' :: (more ++ rest))) := by
      rw [List.append_assoc, List.append_assoc (gap ++ head), List.cons_append, List.cons_append]
      exact .group hgap hhead hkind
    rw [readItems_of_group (reading?_of_readsAs hreads) (afterGroup?_eq_some_iff.2 hclose)]
    exact ⟨by rw [hinside, hitems], hend⟩
  | @loose gap head hgap hhead =>
    obtain ⟨more, rfl⟩ := hrest
    have hends : Ends true (.plain '\x7d' :: more) := ⟨more, rfl⟩
    rw [readItems_of_whole (reading?_of_readsAs (.loose hgap hhead)),
      readItems_of_none hends.reading?_eq]
    exact ⟨rfl, rfl⟩

/-- Reading is sound: what has been read is spelled by what is used up, white space aside. -/
theorem spelled_of_readItems (inGroup : Bool) (input : List Lexeme) :
    ∃ used, input = used ++ dropLayout (readItems inGroup input).1.2 ∧
      Spelled inGroup (readItems inGroup input).1.1 used := by
  have hnothing {inGroup : Bool} {input : List Lexeme}
      (hnone : (readItems inGroup input).1 = ([], input)) :
      ∃ used, input = used ++ dropLayout (readItems inGroup input).1.2 ∧
        Spelled inGroup (readItems inGroup input).1.1 used := by
    refine ⟨input.takeWhile Lexeme.isGap, ?_, ?_⟩
    · rw [hnone, dropLayout_eq, List.takeWhile_append_dropWhile]
    · rw [hnone]
      exact .nil fun lexeme hlexeme ↦ List.mem_takeWhile_imp hlexeme
  induction inGroup, input using readItems_induction with
  | none h => exact hnothing (readItems_of_none h)
  | unclosed h hclose => exact hnothing (readItems_of_unclosed h hclose)
  | @whole inGroup input item rest h ih =>
    obtain ⟨used, hused, hspelled⟩ := ih
    rw [readItems_of_whole h]
    cases readsAs_of_reading? h with
    | @statement _ gap head _ hgap hhead =>
      refine ⟨gap ++ head ++ .plain ';' :: used, ?_, .statement hgap hhead hspelled⟩
      rw [List.append_assoc _ (.plain ';' :: used), List.cons_append, ← hused]
    | @block _ gap head body _ hgap hhead hkind hbody =>
      refine ⟨gap ++ head ++ .plain '\x7b' :: body ++ .plain '\x7d' :: used, ?_,
        .block hgap hhead hkind hbody hspelled⟩
      rw [List.append_assoc _ (.plain '\x7d' :: used), List.cons_append, ← hused]
    | @loose gap head rest hgap hhead =>
      have hends : Ends true (.plain '\x7d' :: rest) := ⟨rest, rfl⟩
      rw [readItems_of_none hends.reading?_eq]
      exact ⟨gap ++ head, rfl, .loose hgap hhead⟩
  | @group inGroup input prelude body rest h hclose ihInside ih =>
    obtain ⟨inner, hinner, hinside⟩ := ihInside
    obtain ⟨used, hused, hspelled⟩ := ih
    rw [afterGroup?_eq_some_iff.1 hclose] at hinner
    rw [readItems_of_group h hclose]
    cases readsAs_of_reading? h with
    | @group _ gap head _ hgap hhead hkind =>
      refine ⟨gap ++ head ++ .plain '\x7b' :: inner ++ .plain '\x7d' :: used, ?_,
        .group hgap hhead hkind hinside hspelled⟩
      rw [List.append_assoc _ (.plain '\x7d' :: used), List.cons_append, ← hused,
        List.append_assoc _ (.plain '\x7b' :: inner), List.cons_append, ← hinner]

/-- Behind what has been read off a text there is only white space. -/
theorem readItems_of_read {text : Text} {sheet : Stylesheet} (h : read text = .ok sheet) :
    (readItems false (lexemes (stripComments text))).1.1 = sheet.items ∧
      ∀ c ∈ textOf (readItems false (lexemes (stripComments text))).1.2,
        Text.isBlank c = true := by
  simp only [read] at h
  split_ifs at h with hempty
  rw [← Except.ok.inj h]
  exact ⟨rfl, trim_eq_nil_iff.1 (List.isEmpty_iff.1 hempty)⟩

/-- What stands behind the layout of a white text is white. -/
theorem isBlank_of_mem_dropLayout {input : List Lexeme}
    (h : ∀ c ∈ textOf input, Text.isBlank c = true) {lexeme : Lexeme}
    (hlexeme : lexeme ∈ dropLayout input) : ∀ c ∈ lexeme.text, Text.isBlank c = true := by
  rw [dropLayout_eq] at hlexeme
  intro c hc
  exact h c (List.mem_flatMap.2 ⟨lexeme, (List.dropWhile_suffix _).subset hlexeme, hc⟩)

end Lists

end ComponentMarkup.Stylesheet
