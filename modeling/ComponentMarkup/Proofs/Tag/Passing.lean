import ComponentMarkup.Proofs.Tag.Search
import ComponentMarkup.Proofs.Tag.Spelling
import ComponentMarkup.Proofs.Text.Solid
import Mathlib.Data.List.Infix

/-!
# What is passed over because no tag is spelled in it

A name without `<` is spelled without `<`, so a tag of this name has no `<` but its first. A tag
that begins in front of another `<` therefore ends in front of it as well. A text in which no
opening tag of a name is spelled is passed over by the search for the name, and a text in which no
closing tag is spelled is part of the inner text, if a `<` follows.
-/

namespace ComponentMarkup.Tag

open Text

variable {mode : LetterCase} {name written tag : Text}

/-- Only letters come from other characters. -/
theorem eq_of_toLower_eq {c d : Char} (hd : d.toNat < 97) (h : c.toLower = d) : c = d := by
  rcases toLower_eq_or c with hc | ⟨hlow, _, hc⟩
  · rw [← hc, h]
  · rw [h] at hc
    omega

/-- Spelling a name brings in no character in front of the letters. -/
theorem LetterCase.Spells.mem {c : Char} (h : mode.Spells name written) (hc : c.toNat < 65)
    (hmem : c ∈ written) : c ∈ name := by
  cases mode with
  | kept => exact (show written = name from h) ▸ hmem
  | ignored =>
    have hlower : c.toLower = c := by
      rcases toLower_eq_or c with hlower | ⟨hlow, _⟩
      · exact hlower
      · omega
    have hname : c ∈ lower name := by
      rw [← (show lower written = lower name from h), ← hlower]
      exact List.mem_map_of_mem hmem
    obtain ⟨d, hd, heq⟩ := List.mem_map.1 hname
    rw [← eq_of_toLower_eq (by omega) heq]
    exact hd

theorem not_mem_of_forall_isMarkupSpace {gap : Text} (h : ∀ c ∈ gap, isMarkupSpace c = true) :
    '<' ∉ gap :=
  fun hmem ↦ absurd (h _ hmem) (by decide)

/-- An opening tag has no `<` behind its first. -/
theorem IsOpening.exists_cons (h : IsOpening mode name tag) (hname : '<' ∉ name) :
    ∃ tail, tag = '<' :: tail ∧ '<' ∉ tail := by
  obtain ⟨gap, written, c, rfl, hgap, hwritten, hc⟩ := h
  refine ⟨gap ++ written ++ [c], by simp, ?_⟩
  have hend : '<' ≠ c := fun heq ↦ absurd (heq ▸ hc) (by decide)
  have hspelled : '<' ∉ written := fun hmem ↦ hname (hwritten.mem (by decide) hmem)
  simp [not_mem_of_forall_isMarkupSpace hgap, hspelled, hend]

/-- A closing tag has no `<` behind its first. -/
theorem IsClosing.exists_cons (h : IsClosing mode name tag) (hname : '<' ∉ name) :
    ∃ tail, tag = '<' :: tail ∧ '<' ∉ tail := by
  obtain ⟨first, second, written, third, rfl, hspace, hwritten⟩ := h
  refine ⟨first ++ '/' :: second ++ written ++ third ++ ['>'], by simp, ?_⟩
  have hgaps := not_mem_of_forall_isMarkupSpace hspace
  have hspelled : '<' ∉ written := fun hmem ↦ hname (hwritten.mem (by decide) hmem)
  simp only [List.mem_append, not_or] at hgaps
  simp [hgaps.1.1, hgaps.1.2, hgaps.2, hspelled]

/-- What begins in front of a character that it does not have ends in front of it. -/
theorem isPrefix_of_append_cons {c : Char} {tail s t : Text} (htail : c ∉ tail)
    (h : tail <+: s ++ c :: t) : tail <+: s := by
  rcases Nat.lt_or_ge s.length tail.length with hlength | hlength
  · have hshort : s ++ [c] <+: s ++ c :: t := ⟨t, by simp⟩
    have hle : (s ++ [c]).length ≤ tail.length := by
      rw [List.length_append]
      exact hlength
    have hmem := List.prefix_of_prefix_length_le hshort h hle
    exact absurd (hmem.subset (by simp)) htail
  · exact List.prefix_of_prefix_length_le h (List.prefix_append s _) hlength

/-- A tag that begins in front of another `<` ends in front of it as well. -/
theorem isPrefix_of_append_open {c : Char} {s t : Text}
    (htag : ∃ tail, tag = '<' :: tail ∧ '<' ∉ tail) (h : tag <+: c :: (s ++ '<' :: t)) :
    tag <+: c :: s := by
  obtain ⟨tail, rfl, htail⟩ := htag
  obtain ⟨hc, hbegins⟩ := List.cons_prefix_cons.1 h
  exact List.cons_prefix_cons.2 ⟨hc, isPrefix_of_append_cons htail hbegins⟩

/-- A search passes over a text in which no opening tag of its name is spelled. -/
theorem occurrences_append_of_not_isOpening (hne : name ≠ []) (hname : '<' ∉ name) {s : Text}
    (h : ∀ tag, IsOpening mode name tag → ¬tag <:+: s) (t : Text) :
    occurrences mode name (s ++ '<' :: t) = occurrences mode name ('<' :: t) := by
  induction s with
  | nil => rfl
  | cons c s ih =>
    have hrest : ∀ tag, IsOpening mode name tag → ¬tag <:+: s :=
      fun tag htag hinfix ↦ h tag htag (List.infix_cons hinfix)
    rw [List.cons_append, occurrences_cons hne, ih hrest]
    intro hc
    by_contra hsome
    obtain ⟨⟨gap, written, rest⟩, hopening⟩ := Option.ne_none_iff_exists'.1 hsome
    obtain ⟨hgap, hwritten, d, behind, rfl, hd⟩ := spelled_of_opening? hopening
    have htag : IsOpening mode name ('<' :: gap ++ written ++ [d]) :=
      ⟨gap, written, d, rfl, hgap, hwritten, hd⟩
    have hbegins : '<' :: gap ++ written ++ [d] <+: c :: (s ++ '<' :: t) :=
      ⟨behind, by rw [hc, opening?_eq hopening]; simp⟩
    exact h _ htag (isPrefix_of_append_open (htag.exists_cons hname) hbegins).isInfix

/-- A text in which no closing tag is spelled is part of the inner text. -/
theorem inner?_append_of_not_isClosing (hname : '<' ∉ name) {s : Text}
    (h : ∀ tag, IsClosing mode name tag → ¬tag <:+: s) (t : Text) :
    inner? mode name (s ++ '<' :: t) =
      (inner? mode name ('<' :: t)).map fun found ↦ (s ++ found.1, found.2) := by
  induction s with
  | nil => simp
  | cons c s ih =>
    have hrest : ∀ tag, IsClosing mode name tag → ¬tag <:+: s :=
      fun tag htag hinfix ↦ h tag htag (List.infix_cons hinfix)
    have hclosing : closingAt? mode name (c :: (s ++ '<' :: t)) = none := by
      by_contra hsome
      obtain ⟨⟨closing, rest⟩, hfound⟩ := Option.ne_none_iff_exists'.1 hsome
      have htag := isClosing_of_closingAt? hfound
      have hbegins : closing <+: c :: (s ++ '<' :: t) := ⟨rest, (closingAt?_eq hfound).symm⟩
      exact h _ htag (isPrefix_of_append_open (htag.exists_cons hname) hbegins).isInfix
    rw [List.cons_append, inner?_cons_of_closingAt? hclosing, ih hrest, Option.map_map]
    rfl

/-! ## Names in any case of letters -/

theorem IsName.open_not_mem (hname : IsName name) : '<' ∉ name :=
  fun hmem ↦ absurd (hname.2 _ hmem) (by decide)

theorem IsName.close_not_mem (hname : IsName name) : '>' ∉ name :=
  fun hmem ↦ absurd (hname.2 _ hmem) (by decide)

theorem isNameLike_eq_false_iff {c : Char} :
    isNameLike c = false ↔ c.toNat ∈ [32, 9, 10, 12, 13, 47, 62, 60, 123, 61, 34, 39] := by
  have hchar (d : Char) : c = d ↔ c.toNat = d.toNat :=
    ⟨congrArg Char.toNat, fun h ↦ Char.ext (UInt32.toNat_inj.1 h)⟩
  simp only [isNameLike, Bool.not_eq_false', Bool.or_eq_true, endsName_eq_true_iff,
    decide_eq_true_eq, hchar, List.mem_cons, List.not_mem_nil, or_false]
  simp only [Char.reduceToNat, or_assoc]

theorem isNameLike_toLower (c : Char) : isNameLike c.toLower = isNameLike c := by
  rcases toLower_eq_or c with h | ⟨hlow, hhigh, h⟩
  · rw [h]
  · have hlike {d : Char} (hd : d.toNat ∉ [32, 9, 10, 12, 13, 47, 62, 60, 123, 61, 34, 39]) :
        isNameLike d = true := by
      rw [← Bool.not_eq_false, isNameLike_eq_false_iff]
      exact hd
    rw [hlike, hlike] <;> simp only [List.mem_cons, List.not_mem_nil, or_false] <;> omega

/-- A name stays one in any case of its letters. -/
theorem IsName.of_spells (h : IsName name) (hwritten : mode.Spells name written) :
    IsName written := by
  cases mode with
  | kept => exact (show written = name from hwritten) ▸ h
  | ignored =>
    have hlower : lower written = lower name := hwritten
    constructor
    · rintro rfl
      exact h.1 (List.map_eq_nil_iff.1 hlower.symm)
    · intro c hc
      have hmem : c.toLower ∈ lower name := hlower ▸ List.mem_map_of_mem hc
      obtain ⟨d, hd, heq⟩ := List.mem_map.1 hmem
      rw [← isNameLike_toLower, ← heq, isNameLike_toLower]
      exact h.2 d hd

/-! ## Names that no white space begins -/

/-- White space does not begin the name. White space behind `<` is passed over before a name is read,
so no other name is ever found. -/
def IsFirm (name : Text) : Prop := ∃ c rest, name = c :: rest ∧ isMarkupSpace c = false

theorem isMarkupSpace_eq_false_of_le {c : Char} (h : 65 ≤ c.toNat) : isMarkupSpace c = false := by
  rw [← Bool.not_eq_true]
  intro hspace
  have hends : endsName c = true := by simp [endsName, hspace]
  rw [endsName_eq_true_iff] at hends
  simp only [List.mem_cons, List.not_mem_nil, or_false] at hends
  omega

theorem isMarkupSpace_toLower (c : Char) : isMarkupSpace c.toLower = isMarkupSpace c := by
  rcases toLower_eq_or c with h | ⟨hlow, _, h⟩
  · rw [h]
  · rw [isMarkupSpace_eq_false_of_le hlow, isMarkupSpace_eq_false_of_le (by omega)]

theorem LetterCase.Spells.symm (h : mode.Spells name written) : mode.Spells written name := by
  cases mode with
  | kept => exact Eq.symm (show written = name from h)
  | ignored => exact Eq.symm (show lower written = lower name from h)

theorem IsFirm.of_spells (h : IsFirm name) (hwritten : mode.Spells name written) :
    IsFirm written := by
  cases mode with
  | kept => exact (show written = name from hwritten) ▸ h
  | ignored =>
    obtain ⟨c, rest, rfl, hc⟩ := h
    have hlower : lower written = lower (c :: rest) := hwritten
    cases written with
    | nil => simp [lower] at hlower
    | cons d written =>
      have hd : d.toLower = c.toLower := (List.cons.inj hlower).1
      exact ⟨d, written, rfl, by rw [← isMarkupSpace_toLower, hd, isMarkupSpace_toLower, hc]⟩

theorem IsName.isFirm (h : IsName name) : IsFirm name := by
  obtain ⟨c, rest, rfl⟩ := List.exists_cons_of_ne_nil h.1
  have hc := h.not_endsName List.mem_cons_self
  simp only [endsName, Bool.or_eq_false_iff] at hc
  exact ⟨c, rest, rfl, hc.1.1⟩

/-- White space in front of a name that it does not begin is told apart from the name. -/
theorem IsFirm.split (h : IsFirm written) {gap : Text} (hgap : ∀ c ∈ gap, isMarkupSpace c = true)
    (rest : Text) : (gap ++ (written ++ rest)).takeWhile isMarkupSpace = gap ∧
      (gap ++ (written ++ rest)).dropWhile isMarkupSpace = written ++ rest := by
  apply takeWhile_append_of_head hgap
  obtain ⟨c, written, rfl, hc⟩ := h
  simpa using hc

/-- A name that is spelled is read. -/
theorem name?_append (h : mode.Spells name written) (rest : Text) :
    name? mode name (written ++ rest) = some (written, rest) := by
  cases mode with
  | ignored => exact name?_eq_some_iff.2 ⟨rfl, h⟩
  | kept =>
    rw [show written = name from h]
    clear h
    induction name with
    | nil => rfl
    | cons c name ih => simp [name?, LetterCase.agrees, ih]

/-! ## Looking for tags in a text -/

/-- An opening tag that is spelled is read as it is spelled. -/
theorem opening?_append (hwritten : IsFirm written) (hspells : mode.Spells name written)
    {gap : Text} (hgap : ∀ c ∈ gap, isMarkupSpace c = true) {c : Char} (hc : endsName c = true)
    (rest : Text) :
    opening? mode name (gap ++ written ++ c :: rest) = some (gap, written, c :: rest) := by
  obtain ⟨htake, hdrop⟩ := hwritten.split hgap (c :: rest)
  rw [opening?, List.append_assoc, hdrop, name?_append hspells, htake]
  simp [hc]

/-- An opening tag that is spelled is read. -/
theorem opening?_isSome_of_isOpening (hname : IsFirm name) {text : Text}
    (h : IsOpening mode name tag) (hbegins : tag <+: '<' :: text) :
    (opening? mode name text).isSome = true := by
  obtain ⟨gap, written, c, rfl, hgap, hwritten, hc⟩ := h
  obtain ⟨rest, hrest⟩ := hbegins
  have htext : text = gap ++ written ++ c :: rest := by
    simpa using (List.cons.inj hrest).2.symm
  rw [htext, opening?_append (hname.of_spells hwritten) hwritten hgap hc, Option.isSome_some]

/-- A closing tag that is spelled is read as it is spelled. -/
theorem closingAt?_append (hname : IsFirm name) (h : IsClosing mode name tag) (rest : Text) :
    closingAt? mode name (tag ++ rest) = some (tag, rest) := by
  obtain ⟨first, second, written, third, rfl, hspace, hwritten⟩ := h
  simp only [List.mem_append] at hspace
  obtain ⟨hfirst, hslash⟩ := takeWhile_append_of_head
    (t := '/' :: (second ++ (written ++ (third ++ '>' :: rest))))
    (fun c hc ↦ hspace c (.inl (.inl hc))) (by simp; decide)
  obtain ⟨hsecond, hafter⟩ := (hname.of_spells hwritten).split
    (fun c hc ↦ hspace c (.inl (.inr hc))) (third ++ '>' :: rest)
  obtain ⟨hthird, hclose⟩ := takeWhile_append_of_head (t := '>' :: rest)
    (fun c hc ↦ hspace c (.inr hc)) (by simp; decide)
  have htext : '<' :: first ++ '/' :: second ++ written ++ third ++ ['>'] ++ rest =
      '<' :: (first ++ '/' :: (second ++ (written ++ (third ++ '>' :: rest)))) := by simp
  rw [htext, closingAt?]
  simp only [closing?, hslash, hafter, name?_append hwritten, hclose, hfirst, hsecond, hthird,
    Option.map_some]
  simp

/-- A closing tag that is spelled is read. -/
theorem closing?_isSome_of_isClosing (hname : IsFirm name) {text : Text}
    (h : IsClosing mode name tag) (hbegins : tag <+: '<' :: text) :
    (closing? mode name text).isSome = true := by
  obtain ⟨rest, hrest⟩ := hbegins
  have hread := closingAt?_append hname h rest
  rw [hrest, closingAt?, Option.map_eq_some_iff] at hread
  obtain ⟨found, hfound, _⟩ := hread
  rw [hfound, Option.isSome_some]

/-- A tag that stands in a text is read behind one of its `<`. -/
theorem not_isInfix_of_read {IsTag : Text → Prop} {read : Text → Bool} {s : Text}
    (hcons : ∀ tag, IsTag tag → ∃ tail, tag = '<' :: tail ∧ '<' ∉ tail)
    (hread : ∀ tag text, IsTag tag → tag <+: '<' :: text → read text = true)
    (h : ∀ t ∈ s.tails, t.head? = some '<' → read t.tail = false) :
    ∀ tag, IsTag tag → ¬tag <:+: s := by
  intro tag htag hinfix
  obtain ⟨tail, rfl, _⟩ := hcons tag htag
  obtain ⟨t, ⟨rest, rfl⟩, hsuffix⟩ := List.infix_iff_prefix_suffix.1 hinfix
  have hnone : read (tail ++ rest) = false := h _ ((List.mem_tails _ _).2 hsuffix) rfl
  have hsome : read (tail ++ rest) = true := hread _ _ htag ⟨rest, rfl⟩
  exact absurd (hnone.symm.trans hsome) Bool.false_ne_true

/-- No opening tag is spelled in a text if none is read behind any `<` of it. -/
theorem not_isInfix_of_opening? (hname : IsName name) {s : Text}
    (h : ∀ t ∈ s.tails, t.head? = some '<' → opening? .ignored name t.tail = none) :
    ∀ tag, IsOpening .ignored name tag → ¬tag <:+: s := by
  apply not_isInfix_of_read fun _ htag ↦ htag.exists_cons hname.open_not_mem
  · exact fun _ _ ↦ opening?_isSome_of_isOpening hname.isFirm
  · intro t ht hhead
    rw [h t ht hhead, Option.isSome_none]

/-- No closing tag is spelled in a text if none is read behind any `<` of it. -/
theorem not_isInfix_of_closing? (hname : IsName name) {s : Text}
    (h : ∀ t ∈ s.tails, t.head? = some '<' → closing? .ignored name t.tail = none) :
    ∀ tag, IsClosing .ignored name tag → ¬tag <:+: s := by
  apply not_isInfix_of_read fun _ htag ↦ htag.exists_cons hname.open_not_mem
  · exact fun _ _ ↦ closing?_isSome_of_isClosing hname.isFirm
  · intro t ht hhead
    rw [h t ht hhead, Option.isSome_none]

end ComponentMarkup.Tag
