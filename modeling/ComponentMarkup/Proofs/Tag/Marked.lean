import ComponentMarkup.Proofs.Forest.Written
import ComponentMarkup.Proofs.Tag.Passing

/-!
# Text between tags

A marked text says of each of its characters whether it is literal or has been put in. It is sealed
if no `<` was put in and nothing was put in between a literal `<` and the next `>`, where quotes
stand only around whole values. What is put into a sealed text changes no tag: a search finds the
same tags in the whole text and in the literal text alone, in the same places of the latter.
-/

namespace ComponentMarkup.Tag

open Text

/-! ## Marked texts -/

/-- The characters of a text, each with whether it is literal. -/
abbrev Marked := List (Char × Bool)

namespace Marked

def text (m : Marked) : Text := m.map Prod.fst

/-- The literal characters alone. -/
def literal (m : Marked) : Text := (m.filter Prod.snd).map Prod.fst

def ofLiteral (t : Text) : Marked := t.map (·, true)

/-- The number of bytes of literal text in front of a place, itself a number of bytes. -/
def literalBefore : Marked → Nat → Nat
  | [], _ => 0
  | (c, isLiteral) :: m, place =>
    if place < c.utf8Size then 0
    else (if isLiteral then c.utf8Size else 0) + literalBefore m (place - c.utf8Size)

section Texts

variable (a b : Marked) (c : Char) (t : Text)

@[simp] theorem text_append : text (a ++ b) = text a ++ text b := List.map_append

@[simp] theorem literal_append : literal (a ++ b) = literal a ++ literal b := by simp [literal]

@[simp] theorem text_cons (isLiteral : Bool) : text ((c, isLiteral) :: a) = c :: text a := rfl

@[simp] theorem literal_cons_true : literal ((c, true) :: a) = c :: literal a := rfl

@[simp] theorem literal_cons_false : literal ((c, false) :: a) = literal a := rfl

@[simp] theorem text_ofLiteral : text (ofLiteral t) = t := by
  simp [text, ofLiteral, Function.comp_def]

@[simp] theorem literal_ofLiteral : literal (ofLiteral t) = t := by
  induction t with
  | nil => rfl
  | cons c t ih => exact congrArg (c :: ·) ih

@[simp] theorem ofLiteral_append (s t : Text) : ofLiteral (s ++ t) = ofLiteral s ++ ofLiteral t :=
  List.map_append

theorem text_tag (inside : Text) :
    text (ofLiteral ('<' :: inside ++ ['>']) ++ a) = '<' :: (inside ++ '>' :: text a) := by simp

theorem literal_tag (inside : Text) :
    literal (ofLiteral ('<' :: inside ++ ['>']) ++ a) = '<' :: (inside ++ '>' :: literal a) := by
  simp

theorem literalBefore_append :
    literalBefore (a ++ b) (text a).byteLength = (literal a).byteLength := by
  induction a with
  | nil =>
    cases b with
    | nil => rfl
    | cons first b => simp [literalBefore, text, literal, first.1.utf8Size_pos]
  | cons first a ih =>
    obtain ⟨c, isLiteral⟩ := first
    have hlength : (text ((c, isLiteral) :: a)).byteLength = c.utf8Size + (text a).byteLength := rfl
    rw [List.cons_append, literalBefore, hlength, if_neg (by omega), Nat.add_sub_cancel_left, ih]
    cases isLiteral with
    | true => rfl
    | false => simp

end Texts

end Marked

/-- The inside of a tag: quotes stand only around whole values, behind `=`. -/
inductive IsTagText : Text → Prop
  | nil : IsTagText []
  | cons {c : Char} {t : Text} (hc : isQuote c = false) (ht : IsTagText t) : IsTagText (c :: t)
  | value {quote : Char} {v t : Text} (hquote : isQuote quote = true)
      (hv : ∀ c ∈ v, isQuote c = false) (ht : IsTagText t) :
      IsTagText ('=' :: quote :: v ++ quote :: t)

/-- No `<` was put in, and nothing was put in between a literal `<` and the next `>`. Behind
everything that was put in, literal text is free. -/
inductive Marked.IsSealed : Marked → Prop
  | free (t : Text) : IsSealed (ofLiteral t)
  | cons {c : Char} {isLiteral : Bool} {m : Marked} (hc : c ≠ '<') (h : IsSealed m) :
      IsSealed ((c, isLiteral) :: m)
  | tag {inside : Text} {m : Marked} (hclose : '>' ∉ inside) (hinside : IsTagText inside)
      (h : IsSealed (ofLiteral (inside ++ ['>']) ++ m)) :
      IsSealed (ofLiteral ('<' :: inside ++ ['>']) ++ m)

/-! ## Reading up to the first `>` -/

section Reading

variable (mode : LetterCase) {name s : Text}

theorem dropWhile_append_close (s t : Text) :
    (s ++ '>' :: t).dropWhile isMarkupSpace = s.dropWhile isMarkupSpace ++ '>' :: t := by
  induction s with
  | nil => rfl
  | cons c s ih =>
    rw [List.cons_append, List.dropWhile_cons, List.dropWhile_cons, ih]
    split <;> rfl

theorem takeWhile_append_close (s t : Text) :
    (s ++ '>' :: t).takeWhile isMarkupSpace = s.takeWhile isMarkupSpace := by
  induction s with
  | nil => rfl
  | cons c s ih => rw [List.cons_append, List.takeWhile_cons, List.takeWhile_cons, ih]

theorem not_agrees_close {a : Char} (ha : a ≠ '>') : mode.agrees a '>' = false := by
  cases mode with
  | kept => exact decide_eq_false ha
  | ignored => exact decide_eq_false fun h ↦ ha (eq_of_toLower_eq (by decide) h)

/-- Whether a name is read depends on what stands in front of `>`. -/
theorem name?_append_close (hname : '>' ∉ name) (s : Text) :
    (∀ t, name? mode name (s ++ '>' :: t) = none) ∨
      ∃ read rest, s = read ++ rest ∧
        ∀ t, name? mode name (s ++ '>' :: t) = some (read, rest ++ '>' :: t) := by
  induction name generalizing s with
  | nil => exact Or.inr ⟨[], s, rfl, fun _ ↦ rfl⟩
  | cons a name ih =>
    rw [List.mem_cons, not_or] at hname
    cases s with
    | nil =>
      refine Or.inl fun t ↦ ?_
      have hclose := not_agrees_close mode (Ne.symm hname.1)
      rw [List.nil_append, name?, hclose, if_neg Bool.false_ne_true]
    | cons c s =>
      by_cases hagrees : mode.agrees a c = true
      · rcases ih hname.2 s with hnone | ⟨read, rest, rfl, hsome⟩
        · refine Or.inl fun t ↦ ?_
          rw [List.cons_append, name?, if_pos hagrees, hnone, Option.map_none]
        · refine Or.inr ⟨c :: read, rest, rfl, fun t ↦ ?_⟩
          rw [List.cons_append, name?, if_pos hagrees, hsome, Option.map_some]
      · refine Or.inl fun t ↦ ?_
        rw [List.cons_append, name?, if_neg hagrees]

/-- Whether a tag opens depends on what stands in front of `>`. -/
theorem opening?_append_close (hname : '>' ∉ name) (s : Text) :
    (∀ t, opening? mode name (s ++ '>' :: t) = none) ∨
      ∃ gap written inTag, s = gap ++ written ++ inTag ∧
        ∀ t, opening? mode name (s ++ '>' :: t) = some (gap, written, inTag ++ '>' :: t) := by
  have hsplit := List.takeWhile_append_dropWhile (p := isMarkupSpace) (l := s)
  rcases name?_append_close mode hname (s.dropWhile isMarkupSpace) with
    hnone | ⟨read, rest, hs, hsome⟩
  · refine Or.inl fun t ↦ ?_
    rw [opening?, dropWhile_append_close, hnone]
  · have hread : s = s.takeWhile isMarkupSpace ++ read ++ rest := by
      rw [List.append_assoc, ← hs, hsplit]
    cases rest with
    | nil =>
      refine Or.inr ⟨_, read, [], hread, fun t ↦ ?_⟩
      rw [opening?, dropWhile_append_close, takeWhile_append_close, hsome]
      rfl
    | cons c rest =>
      by_cases hc : endsName c = true
      · refine Or.inr ⟨_, read, c :: rest, hread, fun t ↦ ?_⟩
        simp only [opening?, dropWhile_append_close, takeWhile_append_close, hsome,
          List.cons_append, hc, if_true]
      · refine Or.inl fun t ↦ ?_
        simp only [opening?, dropWhile_append_close, hsome, List.cons_append, hc]
        rfl

/-- Whether a tag closes depends on what stands in front of `>`. -/
theorem closing?_append_close (hname : '>' ∉ name) (hs : '>' ∉ s) :
    (∀ t, closing? mode name (s ++ '>' :: t) = none) ∨
      ∀ t, closing? mode name (s ++ '>' :: t) = some (s ++ ['>'], t) := by
  have hread {t : Text} (h : ∃ closing, closing? mode name (s ++ '>' :: t) = some (closing, t)) :
      closing? mode name (s ++ '>' :: t) = some (s ++ ['>'], t) := by
    obtain ⟨closing, h⟩ := h
    have htext : s ++ ['>'] ++ t = closing ++ t := by simpa using closing?_eq h
    rw [h, List.append_cancel_right htext]
  cases hslash : s.dropWhile isMarkupSpace with
  | nil => exact Or.inl fun t ↦ by simp [closing?, dropWhile_append_close, hslash]
  | cons c s' =>
    by_cases hc : c = '/'
    · rw [hc] at hslash
      have hs' : '>' ∉ s' := fun hmem ↦ hs ((List.dropWhile_suffix _).subset
        (hslash ▸ List.mem_cons_of_mem '/' hmem))
      rcases name?_append_close mode hname (s'.dropWhile isMarkupSpace) with
        hnone | ⟨read, rest, hsplit, hsome⟩
      · exact Or.inl fun t ↦ by simp [closing?, dropWhile_append_close, hslash, hnone]
      · have hrest : '>' ∉ rest := fun hmem ↦ hs' ((List.dropWhile_suffix _).subset
          (hsplit ▸ List.mem_append_right read hmem))
        cases hafter : rest.dropWhile isMarkupSpace with
        | nil =>
          refine Or.inr fun t ↦ hread ?_
          simp only [closing?, dropWhile_append_close, hslash, List.cons_append, hsome, hafter,
            List.nil_append]
          exact ⟨_, rfl⟩
        | cons d rest' =>
          have hd : d ≠ '>' := by
            rintro rfl
            have hmem : '>' ∈ rest.dropWhile isMarkupSpace := by simp [hafter]
            exact hrest ((List.dropWhile_suffix _).subset hmem)
          exact Or.inl fun t ↦ by simp [closing?, dropWhile_append_close, hslash, hsome, hafter, hd]
    · exact Or.inl fun t ↦ by simp [closing?, dropWhile_append_close, hslash, hc]

/-! ## The inside of a tag -/

/-- The inside of a tag leads from outside quotes to outside quotes. -/
theorem IsTagText.isQuoted_foldl (h : IsTagText s) {region : Region}
    (hregion : region.isQuoted = false) : (s.foldl Region.next region).isQuoted = false := by
  induction h generalizing region with
  | nil => exact hregion
  | cons hc _ ih => exact ih (isQuoted_next hregion hc)
  | @value quote v t hquote hv _ ih =>
    have hequals := next_equals hregion
    have hopening : Region.value.next quote = .quoted quote := if_pos hquote
    have hinside : quote ∉ v := fun hmem ↦ by simp [hv quote hmem] at hquote
    have hclosing : (Region.quoted quote).next quote = .value := if_pos rfl
    rw [List.cons_append, List.cons_append, List.foldl_cons, List.foldl_cons, hequals, hopening,
      List.foldl_append, foldl_next_quoted hinside, List.foldl_cons, hclosing]
    exact ih rfl

theorem IsTagText.of_append {t : Text} (h : IsTagText (s ++ t))
    (hs : ∀ c ∈ s, c ≠ '=' ∧ isQuote c = false) : IsTagText t := by
  induction s with
  | nil => exact h
  | cons c s ih =>
    obtain ⟨hc, hrest⟩ := List.forall_mem_cons.1 hs
    generalize htext : c :: s ++ t = text at h
    cases h with
    | nil => simp at htext
    | cons _ ht =>
      rw [List.cons_append, List.cons.injEq] at htext
      exact ih (htext.2 ▸ ht) hrest
    | value _ _ _ =>
      rw [List.cons_append, List.cons_append, List.cons.injEq] at htext
      exact absurd htext.1 hc.1

/-- A name and the white space in front of it have nothing to do with values. -/
theorem forall_of_isNameLike {gap written : Text} (hgap : ∀ c ∈ gap, isMarkupSpace c = true)
    (hwritten : IsName written) : ∀ c ∈ gap ++ written, c ≠ '=' ∧ isQuote c = false := by
  intro c hc
  rcases List.mem_append.1 hc with hc | hc
  · refine ⟨?_, isQuote_of_isMarkupSpace (hgap c hc)⟩
    rintro rfl
    exact absurd (hgap _ hc) (by decide)
  · refine ⟨?_, isQuote_of_isNameLike (hwritten.2 c hc)⟩
    rintro rfl
    exact absurd (hwritten.2 _ hc) (by decide)

/-- Whether a tag begins at a `<`, and what is read of it, depends on what stands in front of the
next `>`; only its ending depends on what stands behind. -/
theorem first?_append_close (hname : IsName name) (hs : '>' ∉ s) (htag : IsTagText s) :
    (∀ t, first? mode name ('<' :: (s ++ '>' :: t)) =
      (first? mode name (s ++ '>' :: t)).map fun found ↦ ('<' :: found.1, found.2)) ∨
      ∃ gap written inTag, ∀ t, first? mode name ('<' :: (s ++ '>' :: t)) =
        some ([], ⟨gap, written, (ending mode name inTag t).1, (ending mode name inTag t).2.1⟩,
          (ending mode name inTag t).2.2) := by
  rcases opening?_append_close mode hname.close_not_mem s with
    hnone | ⟨gap, written, inTag, rfl, hsome⟩
  · refine Or.inl fun t ↦ ?_
    rw [first?, if_pos rfl, hnone]
  · refine Or.inr ⟨gap, written, inTag, fun t ↦ ?_⟩
    obtain ⟨hgap, hwritten, _⟩ := spelled_of_opening? (hsome t)
    have hinTag := htag.of_append (forall_of_isNameLike hgap (hname.of_spells hwritten))
    have hopen : '>' ∉ inTag := fun hmem ↦ hs (List.mem_append_right _ hmem)
    have hend : tagEnd? .plain (inTag ++ '>' :: t) = some (inTag, t) :=
      tagEnd?_of_isQuoted hopen (hinTag.isQuoted_foldl rfl) t
    exact first?_of_opening? (hsome t) hend

end Reading

/-! ## Searching a sealed text -/

/-- What is read of two tags apart from their inner texts. -/
structure Occurrence.Alike (a b : Occurrence) : Prop where
  attributes : a.attributes = b.attributes
  isSelfClosing : a.isSelfClosing = b.isSelfClosing
  inner : a.ending.inner?.isSome = b.ending.inner?.isSome

section Searching

variable (mode : LetterCase) {name : Text} {m : Marked}

theorem Marked.IsSealed.tail {p : Char × Bool} (h : IsSealed (p :: m)) : m.IsSealed := by
  generalize hm : p :: m = whole at h
  cases h with
  | free t =>
    cases t with
    | nil => simp [ofLiteral] at hm
    | cons c t =>
      rw [(List.cons.inj hm).2]
      exact .free t
  | cons _ h =>
    rw [(List.cons.inj hm).2]
    exact h
  | tag _ _ h =>
    rw [(List.cons.inj hm).2]
    exact h

theorem Marked.IsSealed.of_append {front : Marked} (h : IsSealed (front ++ m)) : m.IsSealed := by
  induction front with
  | nil => exact h
  | cons p front ih => exact ih h.tail

/-- Two readings that find things in the same place of a marked text, one reading all of it and one
its literal text, or both find nothing. -/
inductive Agree {α : Type} (alike : α → α → Prop) (m : Marked) :
    Option (Text × α × Text) → Option (Text × α × Text) → Prop
  | none : Agree alike m none none
  | some {before here rest : Marked} {a b : α} (hm : m = before ++ here ++ rest)
      (halike : alike a b) :
      Agree alike m (some (before.text, a, rest.text)) (some (before.literal, b, rest.literal))

namespace Agree

variable {α : Type} {alike : α → α → Prop}

/-- A reading that passes over a character still agrees, whether it is literal or was put in. -/
theorem step {read? : Text → Option (Text × α × Text)}
    (h : Agree alike m (read? m.text) (read? m.literal)) {c : Char} (isLiteral : Bool)
    (htext : read? (c :: m.text) = (read? m.text).map fun found ↦ (c :: found.1, found.2))
    (hliteral : read? (c :: m.literal) =
      (read? m.literal).map fun found ↦ (c :: found.1, found.2)) :
    Agree alike ((c, isLiteral) :: m) (read? (Marked.text ((c, isLiteral) :: m)))
      (read? (Marked.literal ((c, isLiteral) :: m))) := by
  generalize hx : read? m.text = x at h
  generalize hy : read? m.literal = y at h
  rw [hx] at htext
  rw [hy] at hliteral
  cases isLiteral with
  | true =>
    rw [Marked.text_cons, Marked.literal_cons_true, htext, hliteral]
    cases h with
    | none => exact .none
    | @some before here rest _ _ hm halike =>
      exact @Agree.some _ alike _ ((c, true) :: before) here rest _ _ (by rw [hm]; rfl) halike
  | false =>
    rw [Marked.text_cons, Marked.literal_cons_false, htext, hy]
    cases h with
    | none => exact .none
    | @some before here rest _ _ hm halike =>
      exact @Agree.some _ alike _ ((c, false) :: before) here rest _ _ (by rw [hm]; rfl) halike

/-- Literal text is read in one way only. -/
theorem ofLiteral {t : Text} {x : Option (Text × α × Text)}
    (hx : ∀ found ∈ x, ∃ here, t = found.1 ++ here ++ found.2.2)
    (hrefl : ∀ a, alike a a) : Agree alike (Marked.ofLiteral t) x x := by
  cases x with
  | none => exact .none
  | some found =>
    obtain ⟨before, a, rest⟩ := found
    obtain ⟨here, ht⟩ := hx _ rfl
    have hm : Marked.ofLiteral t =
        Marked.ofLiteral before ++ Marked.ofLiteral here ++ Marked.ofLiteral rest := by
      rw [ht, Marked.ofLiteral_append, Marked.ofLiteral_append]
    have hagree := Agree.some hm (hrefl a)
    simpa using hagree

end Agree

theorem closingAt?_eq_none {c : Char} (hc : c ≠ '<') (t : Text) :
    closingAt? mode name (c :: t) = none := by
  unfold closingAt?
  split
  · rename_i heq
    exact absurd (List.cons.inj heq).1 hc
  · rfl

/-- The inner text ends at the same closing tag, if there is one. -/
theorem Marked.IsSealed.agree_inner? (h : m.IsSealed) (hname : IsName name) :
    Agree (fun _ _ ↦ True) m (inner? mode name m.text) (inner? mode name m.literal) := by
  -- The text up to the `>` behind a `<` is read in the same way whatever follows, so a sealed tag
  -- either closes the inner text in both or its `<` is passed over in both.
  induction h with
  | free t =>
    rw [text_ofLiteral, literal_ofLiteral]
    exact .ofLiteral (fun found hfound ↦ ⟨found.2.1, inner?_eq hfound⟩) fun _ ↦ trivial
  | @cons c isLiteral m hc _ ih =>
    have hstep (t : Text) : inner? mode name (c :: t) =
        (inner? mode name t).map fun found ↦ (c :: found.1, found.2) :=
      inner?_cons_of_closingAt? (closingAt?_eq_none mode hc t)
    exact ih.step isLiteral (hstep _) (hstep _)
  | @tag inside m hclose hinside _ ih =>
    rcases closing?_append_close mode hname.close_not_mem hclose with hnone | hsome
    · have hstep (t : Text) : inner? mode name ('<' :: (inside ++ '>' :: t)) =
          (inner? mode name (inside ++ '>' :: t)).map fun found ↦ ('<' :: found.1, found.2) :=
        inner?_cons_of_closingAt? (by rw [closingAt?, hnone, Option.map_none])
      apply ih.step true
      · simpa using hstep m.text
      · simpa using hstep m.literal
    · have hfound (t : Text) : inner? mode name ('<' :: (inside ++ '>' :: t)) =
          some ([], '<' :: inside ++ ['>'], t) := by
        rw [inner?, closingAt?, hsome, Option.map_some]
        rfl
      rw [text_tag, literal_tag, hfound, hfound]
      exact @Agree.some _ _ _ [] (Marked.ofLiteral ('<' :: inside ++ ['>'])) m _ _ rfl trivial

/-- The ending of a tag is of the same kind, and it ends in the same place. -/
theorem Marked.IsSealed.exists_ending (h : m.IsSealed) (hname : IsName name)
    (gap written inTag : Text) :
    ∃ here rest : Marked, m = here ++ rest ∧
      (ending mode name inTag m.text).2.2 = rest.text ∧
      (ending mode name inTag m.literal).2.2 = rest.literal ∧
      Occurrence.Alike
        ⟨gap, written, (ending mode name inTag m.text).1, (ending mode name inTag m.text).2.1⟩
        ⟨gap, written, (ending mode name inTag m.literal).1,
          (ending mode name inTag m.literal).2.1⟩ := by
  have hagree := h.agree_inner? mode hname
  unfold ending
  by_cases hslash : inTag.getLast? = some '/'
  · rw [if_pos hslash, if_pos hslash]
    exact ⟨[], m, rfl, rfl, rfl, rfl, rfl, rfl⟩
  · rw [if_neg hslash, if_neg hslash]
    generalize inner? mode name m.text = x at hagree
    generalize inner? mode name m.literal = y at hagree
    cases hagree with
    | none => exact ⟨[], m, rfl, rfl, rfl, rfl, rfl, rfl⟩
    | @some before here rest _ _ hm _ => exact ⟨before ++ here, rest, hm, rfl, rfl, rfl, rfl, rfl⟩

/-- The first tag is found in the same place, and the same is read of it. -/
theorem Marked.IsSealed.agree_first? (h : m.IsSealed) (hname : IsName name) :
    Agree Occurrence.Alike m (first? mode name m.text) (first? mode name m.literal) := by
  have hrefl (o : Occurrence) : o.Alike o := ⟨rfl, rfl, rfl⟩
  induction h with
  | free t =>
    rw [text_ofLiteral, literal_ofLiteral]
    exact .ofLiteral (fun found hfound ↦ ⟨found.2.1.text, first?_eq hfound⟩) hrefl
  | @cons c isLiteral m hc _ ih =>
    have hstep (t : Text) : first? mode name (c :: t) =
        (first? mode name t).map fun found ↦ (c :: found.1, found.2) := by
      rw [first?, if_neg hc]
    exact ih.step isLiteral (hstep _) (hstep _)
  | @tag inside m hclose hinside hrest ih =>
    rcases first?_append_close mode hname hclose hinside with
      hstep | ⟨gap, written, inTag, hfound⟩
    · apply ih.step true
      · simpa using hstep m.text
      · simpa using hstep m.literal
    · obtain ⟨here, rest, hm, hbehind, hbehind', halike⟩ :=
        hrest.of_append.exists_ending mode hname gap written inTag
      rw [text_tag, literal_tag, hfound, hfound, hbehind, hbehind']
      refine @Agree.some _ _ _ [] (Marked.ofLiteral ('<' :: inside ++ ['>']) ++ here) rest _ _ ?_
        halike
      rw [hm, List.nil_append, List.append_assoc]

/-! ## All tags of a sealed text -/

/-- A tag in a marked text and the tag in its place of the literal text. -/
structure Corresponds (m : Marked) (a b : Placed) : Prop where
  start : m.literalBefore a.span.start = b.span.start
  stop : m.literalBefore a.span.stop = b.span.stop
  alike : a.occurrence.Alike b.occurrence

/-- What is found behind the front of a text corresponds to what is found in the literal text. -/
theorem Marked.IsSealed.forall₂_place (hname : IsName name) (front : Marked) (h : m.IsSealed) :
    List.Forall₂ (Corresponds (front ++ m))
      (place front.text.byteLength (occurrencesFrom mode name m.text))
      (place front.literal.byteLength (occurrencesFrom mode name m.literal)) := by
  -- A search goes on behind a whole tag, so the induction is on the length of what is left.
  induction hlength : m.length using Nat.strong_induction_on generalizing front m with
  | _ n ih =>
    have hagree := h.agree_first? mode hname
    generalize htext : first? mode name m.text = x at hagree
    generalize hliteral : first? mode name m.literal = y at hagree
    cases hagree with
    | none =>
      rw [occurrencesFrom_of_first?_eq_none htext, occurrencesFrom_of_first?_eq_none hliteral]
      exact .nil
    | @some before here rest a b hm halike =>
      have hhere : here.text = a.text := by
        have hsplit := first?_eq htext
        rw [hm, text_append, text_append] at hsplit
        exact List.append_cancel_left (List.append_cancel_right hsplit)
      have hhere' : here.literal = b.text := by
        have hsplit := first?_eq hliteral
        rw [hm, literal_append, literal_append] at hsplit
        exact List.append_cancel_left (List.append_cancel_right hsplit)
      rw [occurrencesFrom_of_first?_eq_some htext, occurrencesFrom_of_first?_eq_some hliteral]
      have hstart : (front ++ m).literalBefore (front.text.byteLength + before.text.byteLength) =
          front.literal.byteLength + before.literal.byteLength := by
        have hplace := literalBefore_append (front ++ before) (here ++ rest)
        rw [text_append, literal_append, byteLength_append, byteLength_append] at hplace
        rw [hm, ← hplace]
        simp
      have hwhole : front ++ m = (front ++ before ++ here) ++ rest := by rw [hm]; simp
      have hstop : (front ++ m).literalBefore
          (front.text.byteLength + before.text.byteLength + a.text.byteLength) =
            front.literal.byteLength + before.literal.byteLength + b.text.byteLength := by
        have hplace := literalBefore_append (front ++ before ++ here) rest
        simp only [text_append, literal_append, byteLength_append, hhere, hhere'] at hplace
        rw [hwhole, hplace]
      have hshorter : rest.length < n := by
        have hless := length_lt_of_first? htext
        rw [Marked.text, Marked.text, List.length_map, List.length_map, hlength] at hless
        exact hless
      have hrest : rest.IsSealed := @IsSealed.of_append _ (before ++ here) (hm ▸ h)
      have hbehind := ih rest.length hshorter (front ++ before ++ here) hrest rfl
      rw [← hwhole] at hbehind
      simp only [text_append, literal_append, byteLength_append, hhere, hhere'] at hbehind
      exact .cons ⟨hstart, hstop, halike⟩ hbehind

/-- The tags of a sealed text are those of its literal text. -/
theorem Marked.IsSealed.forall₂_placedOccurrences (hname : IsName name) (h : m.IsSealed) :
    List.Forall₂ (Corresponds m) (placedOccurrences mode name m.text)
      (placedOccurrences mode name m.literal) := by
  rw [placedOccurrences, placedOccurrences, scan, scan, if_neg (by simpa using hname.1),
    if_neg (by simpa using hname.1)]
  exact h.forall₂_place mode hname []

/-- Two tags in two marked texts, in the same places of their literal text. -/
structure SamePlaces (m n : Marked) (a b : Placed) : Prop where
  start : m.literalBefore a.span.start = n.literalBefore b.span.start
  stop : m.literalBefore a.span.stop = n.literalBefore b.span.stop
  alike : a.occurrence.Alike b.occurrence

theorem Corresponds.samePlaces {n : Marked} {a b c : Placed} (ha : Corresponds m a c)
    (hb : Corresponds n b c) : SamePlaces m n a b where
  start := ha.start.trans hb.start.symm
  stop := ha.stop.trans hb.stop.symm
  alike := {
    attributes := ha.alike.attributes.trans hb.alike.attributes.symm
    isSelfClosing := ha.alike.isSelfClosing.trans hb.alike.isSelfClosing.symm
    inner := ha.alike.inner.trans hb.alike.inner.symm }

/-- Sealed texts with the same literal text have the same tags. -/
theorem Marked.IsSealed.forall₂_samePlaces {n : Marked} (hname : IsName name) (hm : m.IsSealed)
    (hn : n.IsSealed) (hliteral : m.literal = n.literal) :
    List.Forall₂ (SamePlaces m n) (placedOccurrences mode name m.text)
      (placedOccurrences mode name n.text) := by
  have hfirst := hm.forall₂_placedOccurrences mode hname
  have hsecond := hn.forall₂_placedOccurrences mode hname
  rw [hliteral] at hfirst
  generalize placedOccurrences mode name n.literal = found at hfirst hsecond
  generalize placedOccurrences mode name m.text = inFirst at hfirst ⊢
  generalize placedOccurrences mode name n.text = inSecond at hsecond ⊢
  induction hfirst generalizing inSecond with
  | nil =>
    cases hsecond
    exact .nil
  | cons ha _ ih =>
    cases hsecond with
    | cons hb hrest => exact .cons (ha.samePlaces hb) (ih _ hrest)

end Searching

end ComponentMarkup.Tag
