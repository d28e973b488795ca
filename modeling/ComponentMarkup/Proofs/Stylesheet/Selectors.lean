import ComponentMarkup.Proofs.Stylesheet.Balance
import Mathlib.Data.List.Infix

/-!
# Preludes and lists of selectors

A stretch of lexemes is read as one prelude when a walk that goes into parentheses comes through it
outside, and as one part of a list of selectors when such a walk finds no comma outside. So the
parts of a list can be told before the list is put together, and a list written from parts is read
as these parts.

A comma means nothing to the walk over a prelude. The selectors of a list therefore make a prelude
again when empty parts are left out, white space around the parts is taken away and something
neutral is put in front of them.
-/

namespace ComponentMarkup.Stylesheet

open Text

/-- The places of a prelude: what opens no parenthesis and ends no prelude is passed. -/
def headPlace? (c : Char) : Option Place :=
  if c = '(' then some (.within .parenthesis 0)
  else if endsPrelude c then none
  else some .outside

/-- The places of a list of selectors, or of one part of it if no commas are let through. -/
def partPlace? (commas : Bool) (c : Char) : Option Place :=
  if c = ',' then if commas then some .outside else none
  else if c = '(' then some (.within .parenthesis 0)
  else if c = '[' then some (.within .bracket 0)
  else if c = ')' || c = ']' || isQuote c then none
  else some .outside

/-- Read as one prelude. -/
def IsHead (head : List Lexeme) : Prop := walk? headPlace? .outside head = some .outside

/-- Read as one part of a list. -/
def IsPart (part : List Lexeme) : Prop := walk? (partPlace? false) .outside part = some .outside

theorem skipsBlanks_headPlace? : SkipsBlanks headPlace? := by
  intro c hc
  have hne {d : Char} (hd : Text.isBlank d = false) : c ≠ d := ne_of_isBlank hc hd
  simp [headPlace?, endsPrelude, isQuote, hne (d := '(') rfl, hne (d := '\x7b') rfl,
    hne (d := '\x7d') rfl, hne (d := ';') rfl, hne (d := ')') rfl, hne (d := '"') rfl,
    hne (d := '\'') rfl]

theorem skipsBlanks_partPlace? (commas : Bool) : SkipsBlanks (partPlace? commas) := by
  intro c hc
  have hne {d : Char} (hd : Text.isBlank d = false) : c ≠ d := ne_of_isBlank hc hd
  simp [partPlace?, isQuote, hne (d := ',') rfl, hne (d := '(') rfl, hne (d := '[') rfl,
    hne (d := ')') rfl, hne (d := ']') rfl, hne (d := '"') rfl, hne (d := '\'') rfl]

theorem passes_headPlace?_comma : Passes headPlace? ',' :=
  passes_of_outer rfl rfl fun e ↦ by cases e <;> exact ⟨rfl, rfl⟩

/-- A walk goes past an enclosure at once. -/
theorem walk?_enclosed {outer : Char → Option Place} {e : Enclosure} {c : Char}
    {input inner after : List Lexeme} (hc : isQuote c = false)
    (houter : outer c = some (.within e 0))
    (h : close? e.opens e.closes 0 input = some (inner, after)) {d : Char}
    (hd : e.closes d = true) (rest : List Lexeme) :
    walk? outer .outside (.plain c :: inner ++ .plain d :: rest) = walk? outer .outside rest := by
  have hinner : walk? outer (.within e 0) inner = some (.within e 0) := walk?_of_close? h
  have hopen (more : List Lexeme) :
      walk? outer .outside (.plain c :: more) = walk? outer (.within e 0) more := by
    simp [walk?, Place.next?, hc, houter]
  rw [List.cons_append, hopen, walk?_append_of_eq hinner, walk?_closing hd]

/-- A walk that comes outside again went past an enclosure that is closed. -/
theorem exists_close?_of_walk?_cons {outer : Char → Option Place} {e : Enclosure} {c : Char}
    {rest : List Lexeme} (hc : isQuote c = false) (houter : outer c = some (.within e 0))
    (h : walk? outer .outside (.plain c :: rest) = some .outside) :
    ∃ inner after, close? e.opens e.closes 0 rest = some (inner, after) ∧
      walk? outer .outside after = some .outside := by
  apply exists_close?_of_walk?
  simpa [walk?, Place.next?, hc, houter] using h

theorem parenthesis?_eq {input inner after : List Lexeme}
    (h : parenthesis? input = some (inner, after)) : input = inner ++ .plain ')' :: after := by
  obtain ⟨c, hc, heq⟩ := close?_eq h
  rw [heq, of_decide_eq_true hc]

theorem bracket?_eq {input inner after : List Lexeme}
    (h : bracket? input = some (inner, after)) : input = inner ++ .plain ']' :: after := by
  obtain ⟨c, hc, heq⟩ := close?_eq h
  rw [heq, of_decide_eq_true hc]

/-! ## Preludes -/

section Preludes

theorem prelude_of_ends {c : Char} (h : endsPrelude c = true) (rest : List Lexeme) :
    prelude (.plain c :: rest) = ([], .plain c :: rest) := by
  have hc : c ≠ '(' := by
    rintro rfl
    simp [endsPrelude, isQuote] at h
  rw [prelude]
  simp [hc, h]

theorem prelude_parenthesis {rest inner after : List Lexeme}
    (h : parenthesis? rest = some (inner, after)) :
    prelude (.plain '(' :: rest) =
      (.plain '(' :: inner ++ .plain ')' :: (prelude after).1, (prelude after).2) := by
  rw [prelude]
  simp only [if_true]
  split
  · rename_i inner' after' h'
    rw [h, Option.some.injEq, Prod.mk.injEq] at h'
    rw [h'.1, h'.2]
  · rename_i h'
    simp [h] at h'

/-- What has been read as a prelude is one. -/
theorem isHead_prelude (input : List Lexeme) : IsHead (prelude input).1 := by
  fun_induction prelude input with
  | case1 => rfl
  | case2 text rest ih => exact ih
  | case3 rest inner after h ih =>
    rw [IsHead, walk?_enclosed (e := .parenthesis) rfl rfl h rfl]
    exact ih
  | case4 | case5 => rfl
  | case6 c rest hopen hends ih =>
    have hquote : isQuote c = false := by simp_all [endsPrelude]
    have houter : headPlace? c = some .outside := by simp [headPlace?, hopen, hends]
    simpa [IsHead, walk?, Place.next?, hquote, houter] using ih

/-- A prelude is read up to where none begins. -/
theorem prelude_append_of_isHead {head rest : List Lexeme} (h : IsHead head)
    (hrest : prelude rest = ([], rest)) : prelude (head ++ rest) = (head, rest) := by
  fun_induction prelude head with
  | case1 => exact hrest
  | case2 text head ih =>
    rw [List.cons_append, prelude, ih h]
  | case3 head inner after hclose ih =>
    obtain ⟨inner', after', hclose', hafter⟩ :=
      exists_close?_of_walk?_cons (e := .parenthesis) rfl rfl h
    have hsame : some (inner, after) = some (inner', after') := hclose.symm.trans hclose'
    obtain ⟨rfl, rfl⟩ := Prod.mk.inj (Option.some.inj hsame)
    have happend : parenthesis? (head ++ rest) = some (inner, after ++ rest) :=
      close?_append (e := .parenthesis) hclose rest
    rw [List.cons_append, prelude_parenthesis happend, ih hafter, parenthesis?_eq hclose]
    simp
  | case4 head hclose =>
    obtain ⟨inner, after, hclose', -⟩ := exists_close?_of_walk?_cons (e := .parenthesis) rfl rfl h
    have hsome : parenthesis? head = some (inner, after) := hclose'
    simp [hclose] at hsome
  | case5 c head hopen hends =>
    by_cases hquote : isQuote c = true <;>
      simp [IsHead, walk?, Place.next?, hquote, headPlace?, hopen, hends] at h
  | case6 c head hopen hends ih =>
    obtain ⟨next, hnext, hwalk⟩ := Option.bind_eq_some_iff.1 h
    have hquote : isQuote c = false := by simp_all [endsPrelude]
    have hplace : next = .outside := by
      simpa [Place.next?, hquote, headPlace?, hopen, hends] using hnext.symm
    have hends : endsPrelude c = false := by simpa using hends
    rw [hplace] at hwalk
    rw [List.cons_append, prelude]
    simp [hopen, hends, ih hwalk]

end Preludes

/-! ## Parts of a list -/

section Parts

theorem prepend_ne_nil (front : List Lexeme) (parts : List (List Lexeme)) :
    prepend front parts ≠ [] := by
  cases parts <;> simp [prepend]

theorem prepend_prepend (a b : List Lexeme) {parts : List (List Lexeme)} (h : parts ≠ []) :
    prepend a (prepend b parts) = prepend (a ++ b) parts := by
  cases parts with
  | nil => exact absurd rfl h
  | cons part parts => simp [prepend]

theorem intercalate_prepend (separator front : List Lexeme) {parts : List (List Lexeme)}
    (h : parts ≠ []) :
    separator.intercalate (prepend front parts) = front ++ separator.intercalate parts := by
  cases parts with
  | nil => exact absurd rfl h
  | cons part parts => cases parts <;> simp [prepend, List.intercalate_cons_cons]

theorem forall_mem_prepend {p : List Lexeme → Prop} {front : List Lexeme}
    {parts : List (List Lexeme)} (hne : parts ≠ []) (h : ∀ part ∈ parts, p part)
    (hfront : ∀ part, p part → p (front ++ part)) : ∀ part ∈ prepend front parts, p part := by
  cases parts with
  | nil => exact absurd rfl hne
  | cons first parts =>
    obtain ⟨hfirst, hparts⟩ := List.forall_mem_cons.1 h
    exact List.forall_mem_cons.2 ⟨hfront first hfirst, hparts⟩

/-- A stretch of a list that stays together: a string, a character that means nothing to the list,
or a parenthesis or bracket with what it holds. -/
structure IsStretch (stretch : List Lexeme) : Prop where
  walk : ∀ commas rest, walk? (partPlace? commas) .outside (stretch ++ rest) =
    walk? (partPlace? commas) .outside rest
  parts : ∀ rest, parts? (stretch ++ rest) = (parts? rest).map (prepend stretch)

theorem isStretch_quoted (text : Text) : IsStretch [.quoted text] where
  walk _ _ := rfl
  parts rest := by rw [List.singleton_append, parts?]

theorem isStretch_plain {c : Char} (hcomma : c ≠ ',') (hopen : c ≠ '(') (hbracket : c ≠ '[')
    (hends : (c = ')' || c = ']' || isQuote c) = false) : IsStretch [.plain c] where
  walk commas rest := by
    have hquote : isQuote c = false := by simp_all
    have hplace : partPlace? commas c = some .outside := by
      simp [partPlace?, hcomma, hopen, hbracket, hends]
    simp [walk?, Place.next?, hquote, hplace]
  parts rest := by
    rw [List.singleton_append, parts?]
    simp [hcomma, hopen, hbracket, hends]

theorem isStretch_parenthesis {input inner after : List Lexeme}
    (h : parenthesis? input = some (inner, after)) :
    IsStretch (.plain '(' :: inner ++ [.plain ')']) where
  walk commas rest := by
    rw [List.append_assoc]
    exact walk?_enclosed (e := .parenthesis) rfl rfl h rfl rest
  parts rest := by
    have hwalk : walk? (fun _ ↦ some .outside) (.within .parenthesis 0) inner =
        some (.within .parenthesis 0) := walk?_of_close? (e := .parenthesis) h
    have hclose : parenthesis? (inner ++ .plain ')' :: rest) = some (inner, rest) :=
      close?_of_walk?_within (e := .parenthesis) hwalk rfl rest
    rw [List.append_assoc, List.cons_append, List.singleton_append, parts?]
    simp only [Char.reduceEq, if_false, if_true]
    split
    · rename_i inner' after' h'
      rw [hclose, Option.some.injEq, Prod.mk.injEq] at h'
      rw [h'.1, h'.2]
    · rename_i h'
      simp [hclose] at h'

theorem isStretch_bracket {input inner after : List Lexeme}
    (h : bracket? input = some (inner, after)) :
    IsStretch (.plain '[' :: inner ++ [.plain ']']) where
  walk commas rest := by
    rw [List.append_assoc]
    exact walk?_enclosed (e := .bracket) rfl rfl h rfl rest
  parts rest := by
    have hwalk : walk? (fun _ ↦ some .outside) (.within .bracket 0) inner =
        some (.within .bracket 0) := walk?_of_close? (e := .bracket) h
    have hclose : bracket? (inner ++ .plain ']' :: rest) = some (inner, rest) :=
      close?_of_walk?_within (e := .bracket) hwalk rfl rest
    rw [List.append_assoc, List.cons_append, List.singleton_append, parts?]
    simp only [Char.reduceEq, if_false, if_true]
    split
    · rename_i inner' after' h'
      rw [hclose, Option.some.injEq, Prod.mk.injEq] at h'
      rw [h'.1, h'.2]
    · rename_i h'
      simp [hclose] at h'

/-- A list is split at its commas, goes on behind a stretch, or cannot be split. -/
theorem parts?_induction {motive : List Lexeme → Option (List (List Lexeme)) → Prop}
    (nil : motive [] (some [[]]))
    (comma : ∀ rest, motive rest (parts? rest) →
      motive (.plain ',' :: rest) ((parts? rest).map ([] :: ·)))
    (stretch : ∀ front rest, IsStretch front → motive rest (parts? rest) →
      motive (front ++ rest) ((parts? rest).map (prepend front)))
    (stuck : ∀ input, walk? (partPlace? true) .outside input ≠ some .outside → motive input none)
    (input : List Lexeme) : motive input (parts? input) := by
  fun_induction parts? input with
  | case1 => exact nil
  | case2 text rest ih => exact stretch _ rest (isStretch_quoted text) ih
  | case3 rest ih => exact comma rest ih
  | case4 rest inner after hclose _ ih =>
    have heq : .plain '(' :: rest = (.plain '(' :: inner ++ [.plain ')']) ++ after := by
      simp [parenthesis?_eq hclose]
    rw [heq]
    exact stretch _ after (isStretch_parenthesis hclose) ih
  | case5 rest hclose =>
    apply stuck
    intro hwalk
    obtain ⟨inner, after, hsome, -⟩ :=
      exists_close?_of_walk?_cons (e := .parenthesis) rfl rfl hwalk
    exact absurd (hclose.symm.trans hsome) (by simp)
  | case6 rest inner after hclose _ _ ih =>
    have heq : .plain '[' :: rest = (.plain '[' :: inner ++ [.plain ']']) ++ after := by
      simp [bracket?_eq hclose]
    rw [heq]
    exact stretch _ after (isStretch_bracket hclose) ih
  | case7 rest hclose =>
    apply stuck
    intro hwalk
    obtain ⟨inner, after, hsome, -⟩ := exists_close?_of_walk?_cons (e := .bracket) rfl rfl hwalk
    exact absurd (hclose.symm.trans hsome) (by simp)
  | case8 c rest hcomma hopen hbracket hends =>
    apply stuck
    have hplace : partPlace? true c = none := by
      simp [partPlace?, hcomma, hopen, hbracket, hends]
    by_cases hquote : isQuote c = true <;> simp [walk?, Place.next?, hquote, hplace]
  | case9 c rest hcomma hopen hbracket hends ih =>
    exact stretch _ rest (isStretch_plain hcomma hopen hbracket (by simpa using hends)) ih

theorem parts?_ne_nil {input : List Lexeme} {parts : List (List Lexeme)}
    (h : parts? input = some parts) : parts ≠ [] := by
  induction input using parts?_induction generalizing parts with
  | nil => simp [← Option.some.inj h]
  | comma rest _ =>
    obtain ⟨others, -, rfl⟩ := Option.map_eq_some_iff.1 h
    exact List.cons_ne_nil _ _
  | stretch front rest _ _ =>
    obtain ⟨others, -, rfl⟩ := Option.map_eq_some_iff.1 h
    exact prepend_ne_nil front others
  | stuck => simp at h

/-- Put together with commas, the parts are the list. -/
theorem intercalate_of_parts? {input : List Lexeme} {parts : List (List Lexeme)}
    (h : parts? input = some parts) : [Lexeme.plain ','].intercalate parts = input := by
  induction input using parts?_induction generalizing parts with
  | nil => rw [← Option.some.inj h, List.intercalate_singleton]
  | comma rest ih =>
    obtain ⟨others, hothers, rfl⟩ := Option.map_eq_some_iff.1 h
    obtain ⟨first, more, rfl⟩ := List.exists_cons_of_ne_nil (parts?_ne_nil hothers)
    rw [List.intercalate_cons_cons, ih hothers, List.nil_append, List.singleton_append]
  | stretch front rest _ ih =>
    obtain ⟨others, hothers, rfl⟩ := Option.map_eq_some_iff.1 h
    rw [intercalate_prepend _ _ (parts?_ne_nil hothers), ih hothers]
  | stuck => simp at h

/-- Each part is read as one. -/
theorem isPart_of_mem_parts? {input : List Lexeme} {parts : List (List Lexeme)}
    (h : parts? input = some parts) : ∀ part ∈ parts, IsPart part := by
  induction input using parts?_induction generalizing parts with
  | nil =>
    rw [← Option.some.inj h]
    simp [IsPart, walk?]
  | comma rest ih =>
    obtain ⟨others, hothers, rfl⟩ := Option.map_eq_some_iff.1 h
    exact List.forall_mem_cons.2 ⟨rfl, ih hothers⟩
  | stretch front rest hfront ih =>
    obtain ⟨others, hothers, rfl⟩ := Option.map_eq_some_iff.1 h
    refine forall_mem_prepend (parts?_ne_nil hothers) (ih hothers) fun part hpart ↦ ?_
    rw [IsPart, hfront.walk]
    exact hpart
  | stuck => simp at h

/-- A list can be split exactly if a walk that lets commas through comes through it. -/
theorem isSome_parts?_iff (input : List Lexeme) :
    (parts? input).isSome ↔ walk? (partPlace? true) .outside input = some .outside := by
  induction input using parts?_induction with
  | nil => simp [walk?]
  | comma rest ih => rw [Option.isSome_map, ih]; rfl
  | stretch front rest hfront ih => rw [Option.isSome_map, ih, hfront.walk]
  | stuck input hwalk => simp [hwalk]

/-- What is let through without commas is let through with them. -/
theorem walk?_commas {place next : Place} {input : List Lexeme}
    (h : walk? (partPlace? false) place input = some next) :
    walk? (partPlace? true) place input = some next := by
  induction input generalizing place with
  | nil => exact h
  | cons lexeme rest ih =>
    cases lexeme with
    | quoted text => exact ih h
    | plain c =>
      obtain ⟨middle, hmiddle, hrest⟩ := Option.bind_eq_some_iff.1 h
      have hstep : place.next? (partPlace? true) c = some middle := by
        rw [← hmiddle]
        cases place with
        | outside =>
          by_cases hcomma : c = ','
          · simp [Place.next?, partPlace?, hcomma, isQuote] at hmiddle
          · simp [Place.next?, partPlace?, hcomma]
        | within e depth => rfl
      rw [walk?, hstep, Option.bind_some, ih hrest]

theorem isStretch_nil : IsStretch [] where
  walk _ _ := rfl
  parts rest := by
    rw [List.nil_append]
    cases hrest : parts? rest with
    | none => rfl
    | some parts =>
      obtain ⟨first, others, rfl⟩ := List.exists_cons_of_ne_nil (parts?_ne_nil hrest)
      rfl

theorem IsStretch.append {a b : List Lexeme} (ha : IsStretch a) (hb : IsStretch b) :
    IsStretch (a ++ b) where
  walk commas rest := by rw [List.append_assoc, ha.walk, hb.walk]
  parts rest := by
    rw [List.append_assoc, ha.parts, hb.parts, Option.map_map]
    cases hrest : parts? rest with
    | none => rfl
    | some parts => simp [prepend_prepend _ _ (parts?_ne_nil hrest)]

/-- A part stays together. -/
theorem IsPart.isStretch {part : List Lexeme} (h : IsPart part) : IsStretch part := by
  induction part using parts?_induction with
  | nil => exact isStretch_nil
  | comma => simp [IsPart, walk?, Place.next?, partPlace?] at h
  | stretch front part hfront ih =>
    have hpart : IsPart part := by rwa [IsPart, hfront.walk] at h
    exact hfront.append (ih hpart)
  | stuck input hwalk => exact absurd (walk?_commas h) hwalk

theorem parts?_of_isPart {part : List Lexeme} (h : IsPart part) : parts? part = some [part] := by
  have happend := h.isStretch.parts []
  rw [List.append_nil] at happend
  rw [happend, parts?]
  simp [prepend]

theorem parts?_append_comma {part : List Lexeme} (h : IsPart part) (rest : List Lexeme) :
    parts? (part ++ .plain ',' :: rest) = (parts? rest).map (part :: ·) := by
  have hcomma : parts? (.plain ',' :: rest) = (parts? rest).map ([] :: ·) := by
    rw [parts?]
    simp
  rw [h.isStretch.parts, hcomma, Option.map_map]
  simp only [Function.comp_def, prepend, List.append_nil]

end Parts

/-! ## Lists written from their parts -/

/-- Characters that mean nothing to a style sheet: those of names, of classes and ids, and the
space. -/
def isNeutral (c : Char) : Bool :=
  c.isAlphanum || c = '-' || c = '_' || c = '.' || c = '#' || c = ' '

/-- What may stand in front of a selector. -/
structure IsLead (lead : Text) : Prop where
  neutral : ∀ c ∈ lead, isNeutral c = true
  head : ∀ c ∈ lead.head?, Text.isBlank c = false

/-- The selectors of a list as lexemes. -/
def selectorParts (head : List Lexeme) : List (List Lexeme) :=
  (((parts? head).getD [head]).map trimLexemes).filter (!·.isEmpty)

/-- The list of these parts, with something in front of each. -/
def writeSelectors (lead : Text) (parts : List (List Lexeme)) : List Lexeme :=
  [Lexeme.plain ','].intercalate (parts.map (lead.map Lexeme.plain ++ ·))

section Written

variable {outer : Char → Option Place} {lead : Text} {head : List Lexeme}

theorem ne_of_isNeutral {c d : Char} (hc : isNeutral c = true) (hd : isNeutral d = false) :
    c ≠ d := by
  rintro rfl
  simp [hc] at hd

theorem passes_of_isNeutral {c : Char} (h : isNeutral c = true)
    (houter : outer c = some .outside) : Passes outer c := by
  have hne {d : Char} (hd : isNeutral d = false) : c ≠ d := ne_of_isNeutral h hd
  refine passes_of_outer houter ?_ fun e ↦ ?_
  · simp [isQuote, hne (d := '"') rfl, hne (d := '\'') rfl]
  · cases e <;> simp [Enclosure.opens, Enclosure.closes, hne (d := '(') rfl, hne (d := ')') rfl,
      hne (d := ']') rfl, hne (d := '\x7b') rfl, hne (d := '\x7d') rfl]

theorem passes_headPlace?_of_isNeutral {c : Char} (h : isNeutral c = true) :
    Passes headPlace? c := by
  have hne {d : Char} (hd : isNeutral d = false) : c ≠ d := ne_of_isNeutral h hd
  apply passes_of_isNeutral h
  simp [headPlace?, endsPrelude, isQuote, hne (d := '(') rfl, hne (d := '\x7b') rfl,
    hne (d := '\x7d') rfl, hne (d := ';') rfl, hne (d := ')') rfl, hne (d := '"') rfl,
    hne (d := '\'') rfl]

theorem passes_partPlace?_of_isNeutral (commas : Bool) {c : Char} (h : isNeutral c = true) :
    Passes (partPlace? commas) c := by
  have hne {d : Char} (hd : isNeutral d = false) : c ≠ d := ne_of_isNeutral h hd
  apply passes_of_isNeutral h
  simp [partPlace?, isQuote, hne (d := ',') rfl, hne (d := '(') rfl, hne (d := '[') rfl,
    hne (d := ')') rfl, hne (d := ']') rfl, hne (d := '"') rfl, hne (d := '\'') rfl]

/-- A walk does not see what stands in front of a selector. -/
theorem walk?_lead (h : ∀ c ∈ lead, Passes outer c) (place : Place) (part : List Lexeme) :
    walk? outer place (lead.map Lexeme.plain ++ part) = walk? outer place part := by
  induction lead with
  | nil => rfl
  | cons c lead ih =>
    obtain ⟨hc, hlead⟩ := List.forall_mem_cons.1 h
    rw [List.map_cons, List.cons_append, walk?_plain_of_passes hc, ih hlead]

theorem walk?_flatten_map {f : List Lexeme → List Lexeme} {parts : List (List Lexeme)}
    (h : ∀ part place, walk? outer place (f part) = walk? outer place part) (place : Place) :
    walk? outer place (parts.map f).flatten = walk? outer place parts.flatten := by
  induction parts generalizing place with
  | nil => rfl
  | cons part parts ih =>
    rw [List.map_cons, List.flatten_cons, List.flatten_cons, walk?_append, walk?_append, h]
    simp only [ih]

/-- A walk that passes over commas does not see them between the parts. -/
theorem walk?_intercalate (h : Passes outer ',') (place : Place) (parts : List (List Lexeme)) :
    walk? outer place ([Lexeme.plain ','].intercalate parts) =
      walk? outer place parts.flatten := by
  induction parts generalizing place with
  | nil => rfl
  | cons part parts ih =>
    cases parts with
    | nil => simp
    | cons next parts =>
      rw [List.intercalate_cons_cons, List.append_assoc, walk?_append, List.flatten_cons,
        walk?_append]
      simp only [List.singleton_append, walk?_plain_of_passes h, ih]

theorem isInfix_intercalate {part : List Lexeme} {parts : List (List Lexeme)}
    (h : part ∈ parts) : part <:+: [Lexeme.plain ','].intercalate parts := by
  induction parts with
  | nil => simp at h
  | cons first parts ih =>
    cases parts with
    | nil =>
      rw [List.mem_singleton.1 h, List.intercalate_singleton]
    | cons next parts =>
      rw [List.intercalate_cons_cons, List.append_assoc]
      rcases List.mem_cons.1 h with rfl | h
      · exact (List.prefix_append _ _).isInfix
      · exact (ih h).trans ((List.suffix_append _ _).trans (List.suffix_append _ _)).isInfix

/-- Unsplit parts are put together again. -/
theorem intercalate_getD_parts? (head : List Lexeme) :
    [Lexeme.plain ','].intercalate ((parts? head).getD [head]) = head := by
  cases h : parts? head with
  | none => simp
  | some parts => exact intercalate_of_parts? h

theorem isInfix_of_mem_parts {part : List Lexeme} (h : part ∈ (parts? head).getD [head]) :
    part <:+: head := by
  have hinside := isInfix_intercalate h
  rwa [intercalate_getD_parts?] at hinside

theorem of_mem_selectorParts {part : List Lexeme} (h : part ∈ selectorParts head) :
    IsTight part ∧ part ≠ [] ∧ part <:+: head := by
  obtain ⟨hmem, hne⟩ := List.mem_filter.1 h
  obtain ⟨whole, hwhole, rfl⟩ := List.mem_map.1 hmem
  exact ⟨isTight_trimLexemes whole, by simpa using hne,
    (trimLexemes_isInfix whole).trans (isInfix_of_mem_parts hwhole)⟩

theorem textOf_eq_nil_iff {input : List Lexeme} (h : ∀ lexeme ∈ input, lexeme.IsWhole) :
    textOf input = [] ↔ input = [] := by
  constructor
  · intro hnil
    rw [← lexemes_textOf h, hnil, lexemes]
  · rintro rfl
    rfl

/-- The selectors are the texts of the parts. -/
theorem selectors_eq (h : ∀ lexeme ∈ head, lexeme.IsWhole) :
    selectors head = (selectorParts head).map textOf := by
  have hpart (part : List Lexeme) (hpart : part ∈ (parts? head).getD [head]) :
      ∀ lexeme ∈ part, lexeme.IsWhole :=
    fun lexeme hlexeme ↦ h lexeme ((isInfix_of_mem_parts hpart).subset hlexeme)
  rw [selectors, selectorParts]
  generalize (parts? head).getD [head] = parts at hpart
  induction parts with
  | nil => rfl
  | cons part parts ih =>
    obtain ⟨hfirst, hparts⟩ := List.forall_mem_cons.1 hpart
    have htrim : ∀ lexeme ∈ trimLexemes part, lexeme.IsWhole :=
      fun lexeme hlexeme ↦ hfirst lexeme ((trimLexemes_isInfix part).subset hlexeme)
    have hempty : (textOf (trimLexemes part)).isEmpty = (trimLexemes part).isEmpty := by
      rw [Bool.eq_iff_iff, List.isEmpty_iff, List.isEmpty_iff, textOf_eq_nil_iff htrim]
    rw [List.map_cons, List.map_cons, List.filter_cons, List.filter_cons, trim_textOf hfirst,
      hempty, ih hparts]
    split_ifs <;> rfl

/-- The list that is written is a prelude where the list that was read is one. -/
theorem isHead_writeSelectors (hlead : IsLead lead) (h : IsHead head) :
    IsHead (writeSelectors lead (selectorParts head) ++ [.plain ' ']) := by
  have hpasses : ∀ c ∈ lead, Passes headPlace? c :=
    fun c hc ↦ passes_headPlace?_of_isNeutral (hlead.neutral c hc)
  have hwalk : walk? headPlace? .outside (writeSelectors lead (selectorParts head)) =
      some .outside := by
    calc
      walk? headPlace? .outside (writeSelectors lead (selectorParts head)) =
          walk? headPlace? .outside (selectorParts head).flatten := by
        rw [writeSelectors, walk?_intercalate passes_headPlace?_comma,
          walk?_flatten_map fun part place ↦ walk?_lead hpasses place part]
      _ = walk? headPlace? .outside ((parts? head).getD [head]).flatten := by
        rw [selectorParts, List.flatten_filter_not_isEmpty,
          walk?_flatten_map fun part place ↦ skipsBlanks_headPlace?.walk?_trimLexemes part place]
      _ = walk? headPlace? .outside head := by
        rw [← walk?_intercalate passes_headPlace?_comma, intercalate_getD_parts?]
      _ = some .outside := h
  rw [IsHead, walk?_append_of_eq hwalk]
  rfl

theorem isTight_lead (hlead : IsLead lead) {part : List Lexeme} (h : IsTight part)
    (hne : part ≠ []) : IsTight (lead.map Lexeme.plain ++ part) := by
  constructor
  · cases lead with
    | nil => exact h.head
    | cons c lead =>
      intro lexeme hlexeme
      obtain rfl : .plain c = lexeme := by simpa using hlexeme
      exact hlead.head c rfl
  · rw [List.getLast?_append_of_ne_nil _ hne]
    exact h.last

/-- A list written from tight parts is split into them again. -/
theorem parts?_intercalate {parts : List (List Lexeme)} (hne : parts ≠ [])
    (h : ∀ part ∈ parts, IsPart part ∧ IsTight part) :
    ∃ others, parts? ([Lexeme.plain ','].intercalate parts ++ [.plain ' ']) = some others ∧
      others.map trimLexemes = parts := by
  have hspace : ∀ lexeme ∈ [Lexeme.plain ' '], lexeme.isBlank = true := by
    simp [Lexeme.isBlank]
  induction parts with
  | nil => exact absurd rfl hne
  | cons part parts ih =>
    obtain ⟨⟨hpart, htight⟩, hparts⟩ := List.forall_mem_cons.1 h
    cases parts with
    | nil =>
      have hlast : IsPart (part ++ [.plain ' ']) := by
        rw [IsPart, walk?_append_of_eq hpart]
        rfl
      refine ⟨[part ++ [.plain ' ']], ?_, ?_⟩
      · rw [List.intercalate_singleton, parts?_of_isPart hlast]
      · rw [List.map_singleton, htight.trimLexemes_append hspace]
    | cons next parts =>
      obtain ⟨others, hothers, htrim⟩ := ih (List.cons_ne_nil _ _) hparts
      refine ⟨part :: others, ?_, ?_⟩
      · rw [List.intercalate_cons_cons, List.append_assoc, List.append_assoc,
          List.singleton_append, parts?_append_comma hpart, hothers, Option.map_some]
      · rw [List.map_cons, htight.trimLexemes_eq, htrim]

theorem passes_lead (hlead : IsLead lead) (commas : Bool) :
    ∀ c ∈ lead, Passes (partPlace? commas) c :=
  fun c hc ↦ passes_partPlace?_of_isNeutral commas (hlead.neutral c hc)

/-- What is written for a part of a list that can be split is a part. -/
theorem isPart_lead_of_mem (hlead : IsLead lead) {parts : List (List Lexeme)}
    (hparts : parts? head = some parts) {part : List Lexeme} (hpart : part ∈ selectorParts head) :
    IsPart (lead.map Lexeme.plain ++ part) := by
  rw [selectorParts, hparts, Option.getD_some] at hpart
  obtain ⟨whole, hwhole, rfl⟩ := List.mem_map.1 (List.mem_filter.1 hpart).1
  rw [IsPart, walk?_lead (passes_lead hlead false),
    (skipsBlanks_partPlace? false).walk?_trimLexemes]
  exact isPart_of_mem_parts? hparts whole hwhole

/-- A list that cannot be split is one selector. -/
theorem selectorParts_of_parts?_eq_none (hparts : parts? head = none)
    (hne : selectorParts head ≠ []) : selectorParts head = [trimLexemes head] := by
  have hall : selectorParts head = [trimLexemes head].filter (!·.isEmpty) := by
    simp [selectorParts, hparts]
  rw [hall, List.filter_eq_self]
  intro part hpart
  obtain rfl := List.mem_singleton.1 hpart
  by_contra hempty
  simp [hall, hempty] at hne

/-- A list that cannot be split cannot be split when it is written anew. -/
theorem parts?_lead_of_eq_none (hlead : IsLead lead) (hparts : parts? head = none) :
    parts? (lead.map Lexeme.plain ++ trimLexemes head ++ [.plain ' ']) = none := by
  have hwalk : walk? (partPlace? true) .outside head ≠ some .outside := by
    rw [ne_eq, ← isSome_parts?_iff, hparts]
    simp
  rw [← Option.not_isSome_iff_eq_none, isSome_parts?_iff, List.append_assoc,
    walk?_lead (passes_lead hlead true), walk?_append,
    (skipsBlanks_partPlace? true).walk?_trimLexemes]
  intro hspace
  obtain ⟨next, hnext, hend⟩ := Option.bind_eq_some_iff.1 hspace
  rw [walk?_plain_of_passes (passes_partPlace?_of_isNeutral true rfl)] at hend
  exact hwalk (hnext.trans hend)

/-- The list that is written has the parts it was written from. -/
theorem selectorParts_writeSelectors (hlead : IsLead lead) (hne : selectorParts head ≠ []) :
    selectorParts (writeSelectors lead (selectorParts head) ++ [.plain ' ']) =
      (selectorParts head).map (lead.map Lexeme.plain ++ ·) := by
  have hkept : ((selectorParts head).map (lead.map Lexeme.plain ++ ·)).filter (!·.isEmpty) =
      (selectorParts head).map (lead.map Lexeme.plain ++ ·) := by
    apply List.filter_eq_self.2
    intro part hpart
    obtain ⟨inside, hinside, rfl⟩ := List.mem_map.1 hpart
    simp [(of_mem_selectorParts hinside).2.1]
  cases hparts : parts? head with
  | some parts =>
    have hwritten : ∀ part ∈ (selectorParts head).map (lead.map Lexeme.plain ++ ·),
        IsPart part ∧ IsTight part := by
      intro part hpart
      obtain ⟨inside, hinside, rfl⟩ := List.mem_map.1 hpart
      obtain ⟨htight, hnonempty, -⟩ := of_mem_selectorParts hinside
      exact ⟨isPart_lead_of_mem hlead hparts hinside, isTight_lead hlead htight hnonempty⟩
    obtain ⟨others, hothers, htrim⟩ := parts?_intercalate (by simpa using hne) hwritten
    rw [selectorParts, writeSelectors, hothers, Option.getD_some, htrim, hkept]
  | none =>
    have hone := selectorParts_of_parts?_eq_none hparts hne
    have htrimmed : trimLexemes head ∈ selectorParts head := by simp [hone]
    obtain ⟨htight, hnonempty, -⟩ := of_mem_selectorParts htrimmed
    have hspace : ∀ lexeme ∈ [Lexeme.plain ' '], lexeme.isBlank = true := by
      simp [Lexeme.isBlank]
    rw [hone] at hkept ⊢
    rw [writeSelectors, List.map_singleton, List.intercalate_singleton, selectorParts,
      parts?_lead_of_eq_none hlead hparts, Option.getD_none, List.map_singleton,
      (isTight_lead hlead htight hnonempty).trimLexemes_append hspace, ← List.map_singleton]
    exact hkept

end Written

end ComponentMarkup.Stylesheet
