import ComponentMarkup.Tag.Scan
import Mathlib.Data.Prod.Basic

/-!
# What a search passes over

A search for a tag passes over every text without `<`, over the opening tags of other names and over
closing tags. It stops at an opening tag of its own name, and the inner text goes on to the first
closing tag of this name. Names are compared without regard to ASCII case, and a name is made of
characters that mean nothing to the search.
-/

namespace ComponentMarkup.Tag

open Text

/-- A character that means nothing in a tag. -/
def isNameLike (c : Char) : Bool :=
  !(endsName c || c = '<' || c = '\x7b' || c = '=' || c = '"' || c = '\'')

/-- A name of a tag or of an attribute. -/
def IsName (name : Text) : Prop := name ≠ [] ∧ ∀ c ∈ name, isNameLike c = true

instance (name : Text) : Decidable (IsName name) :=
  have := List.decidableBAll (isNameLike · = true) name
  inferInstanceAs (Decidable (_ ∧ _))

/-! ## Names -/

/-- Capital letters become small ones, and everything else stays. -/
theorem toLower_eq_or (c : Char) :
    c.toLower = c ∨ 65 ≤ c.toNat ∧ c.toNat ≤ 90 ∧ c.toLower.toNat = c.toNat + 32 := by
  by_cases h : 65 ≤ c.toNat ∧ c.toNat ≤ 90
  · refine Or.inr ⟨h.1, h.2, ?_⟩
    have hval : c.val ≥ 'A'.val ∧ c.val ≤ 'Z'.val := ⟨h.1, h.2⟩
    have hlower : c.toLower = ⟨c.val + 32, _⟩ := dif_pos hval
    rw [hlower]
    show (c.val + 32).toNat = c.val.toNat + 32
    have hle : c.val.toNat ≤ 90 := h.2
    rw [UInt32.toNat_add]
    exact Nat.mod_eq_of_lt (show c.val.toNat + 32 < 2 ^ 32 by omega)
  · refine Or.inl ?_
    have hval : ¬(c.val ≥ 'A'.val ∧ c.val ≤ 'Z'.val) := fun hval ↦ h ⟨hval.1, hval.2⟩
    exact dif_neg hval

theorem endsName_eq_true_iff {c : Char} :
    endsName c = true ↔ c.toNat ∈ [32, 9, 10, 12, 13, 47, 62] := by
  have hchar (d : Char) : c = d ↔ c.toNat = d.toNat :=
    ⟨congrArg Char.toNat, fun h ↦ Char.ext (UInt32.toNat_inj.1 h)⟩
  simp only [endsName, isMarkupSpace, Bool.or_eq_true, decide_eq_true_eq, hchar, List.mem_cons,
    List.not_mem_nil, or_false]
  simp only [Char.reduceToNat, or_assoc]

theorem endsName_toLower (c : Char) : endsName c.toLower = endsName c := by
  rcases toLower_eq_or c with h | ⟨hlow, hhigh, h⟩
  · rw [h]
  · have hno {d : Char} (hd : 65 ≤ d.toNat) : endsName d = false := by
      rw [← Bool.not_eq_true, endsName_eq_true_iff]
      simp only [List.mem_cons, List.not_mem_nil, or_false]
      omega
    rw [hno hlow, hno (by omega)]

/-- White space, or what follows it, ends the name that it stands behind. -/
theorem exists_endsName_append {s t : Text} (hs : ∀ c ∈ s.head?, isMarkupSpace c = true)
    (ht : ∃ c rest, t = c :: rest ∧ endsName c = true) :
    ∃ c rest, s ++ t = c :: rest ∧ endsName c = true := by
  cases s with
  | nil => exact ht
  | cons c s => exact ⟨c, s ++ t, rfl, by simp [endsName, hs c rfl]⟩

/-- A name that is read has the letters of the name that is looked for. -/
theorem name?_eq_some_iff {name text read rest : Text} :
    name? .ignored name text = some (read, rest) ↔
      text = read ++ rest ∧ lower read = lower name := by
  induction name generalizing text read rest with
  | nil =>
    simp only [name?, Option.some.injEq, Prod.mk.injEq, lower, List.map_nil, List.map_eq_nil_iff]
    constructor
    · rintro ⟨rfl, rfl⟩
      exact ⟨rfl, rfl⟩
    · rintro ⟨rfl, rfl⟩
      exact ⟨rfl, rfl⟩
  | cons a name ih =>
    cases text with
    | nil =>
      simp only [name?, reduceCtorEq, false_iff, not_and]
      intro htext hlower
      rw [eq_comm, List.append_eq_nil_iff] at htext
      simp [htext.1, lower] at hlower
    | cons c text =>
      by_cases hagrees : a.toLower = c.toLower
      · simp only [name?, LetterCase.agrees, hagrees, decide_true, if_true, Option.map_eq_some_iff,
          Prod.exists, ih, Prod.mk.injEq]
        constructor
        · rintro ⟨read, rest, ⟨rfl, hlower⟩, rfl, rfl⟩
          exact ⟨rfl, by simp [lower, hagrees] at hlower ⊢; exact hlower⟩
        · rintro ⟨htext, hlower⟩
          cases read with
          | nil => simp [lower] at hlower
          | cons d read =>
            simp only [List.cons_append, List.cons.injEq] at htext
            obtain ⟨rfl, rfl⟩ := htext
            simp only [lower, List.map_cons, List.cons.injEq] at hlower
            exact ⟨read, rest, ⟨rfl, hlower.2⟩, rfl, rfl⟩
      · simp only [name?, LetterCase.agrees, hagrees, decide_false, Bool.false_eq_true, if_false,
          reduceCtorEq, false_iff, not_and]
        intro htext hlower
        cases read with
        | nil => simp [lower] at hlower
        | cons d read =>
          simp only [List.cons_append, List.cons.injEq] at htext
          simp only [lower, List.map_cons, List.cons.injEq] at hlower
          exact hagrees (by rw [htext.1, hlower.1])

theorem IsName.not_endsName {name : Text} (h : IsName name) {c : Char} (hc : c ∈ name) :
    endsName c = false := by
  have := h.2 c hc
  simp only [isNameLike, Bool.not_eq_true', Bool.or_eq_false_iff] at this
  exact this.1.1.1.1.1

/-- Texts with the letters of a name have none of the characters that end names. -/
theorem IsName.not_endsName_of_lower {name read : Text} (h : IsName name)
    (hlower : lower read = lower name) {c : Char} (hc : c ∈ read) : endsName c = false := by
  have hmem : c.toLower ∈ lower name := by
    rw [← hlower]
    exact List.mem_map_of_mem hc
  obtain ⟨d, hd, heq⟩ := List.mem_map.1 hmem
  rw [← endsName_toLower c, ← heq, endsName_toLower]
  exact h.not_endsName hd

/-- Where two texts with ends of names behind them are the same, the texts are the same. -/
theorem append_inj_of_endsName {s t u v : Text} {c d : Char} (hs : ∀ c ∈ s, endsName c = false)
    (ht : ∀ c ∈ t, endsName c = false) (hc : endsName c = true) (hd : endsName d = true)
    (h : s ++ c :: u = t ++ d :: v) : s = t ∧ c :: u = d :: v := by
  have htake {s u : Text} {c : Char} (hs : ∀ c ∈ s, endsName c = false)
      (hc : endsName c = true) : (s ++ c :: u).takeWhile (!endsName ·) = s := by
    rw [List.takeWhile_append_of_pos (by simpa using hs)]
    simp [hc]
  have heq : s = t := by
    calc
      s = (s ++ c :: u).takeWhile (!endsName ·) := (htake hs hc).symm
      _ = (t ++ d :: v).takeWhile (!endsName ·) := by rw [h]
      _ = t := htake ht hd
  subst heq
  exact ⟨rfl, List.append_cancel_left h⟩

theorem IsName.dropWhile_append {name : Text} (h : IsName name) (text : Text) :
    (name ++ text).dropWhile isMarkupSpace = name ++ text := by
  obtain ⟨hne, hlike⟩ := h
  cases name with
  | nil => exact absurd rfl hne
  | cons c name =>
    have hc := IsName.not_endsName ⟨hne, hlike⟩ List.mem_cons_self
    have hspace : isMarkupSpace c = false := by
      simp only [endsName, Bool.or_eq_false_iff] at hc
      exact hc.1.1
    simp [hspace]

/-! ## Opening tags -/

section Opening

variable {name other text : Text} {c : Char}

theorem opening?_of_lower (hother : IsName other) (hc : endsName c = true)
    (h : lower other = lower name) :
    opening? .ignored name (other ++ c :: text) = some ([], other, c :: text) := by
  have hread : Tag.name? .ignored name (other ++ c :: text) = some (other, c :: text) :=
    name?_eq_some_iff.2 ⟨rfl, h⟩
  have htake : (other ++ c :: text).takeWhile isMarkupSpace = [] := by
    have hsplit := List.takeWhile_append_dropWhile (p := isMarkupSpace) (l := other ++ c :: text)
    rw [hother.dropWhile_append] at hsplit
    exact List.append_left_eq_self.1 hsplit
  simp only [opening?, hother.dropWhile_append, hread, hc, if_true, htake]

theorem opening?_of_lower_ne (hname : IsName name) (hother : IsName other)
    (hc : endsName c = true) (h : lower other ≠ lower name) :
    opening? .ignored name (other ++ c :: text) = none := by
  unfold opening?
  rw [hother.dropWhile_append]
  split
  · rename_i read d rest hread
    by_cases hd : endsName d = true
    · obtain ⟨htext, hlower⟩ := name?_eq_some_iff.1 hread
      have hletters : ∀ c ∈ read, endsName c = false :=
        fun c hc ↦ hname.not_endsName_of_lower hlower hc
      obtain ⟨rfl, _⟩ :=
        append_inj_of_endsName (fun c hc ↦ hother.not_endsName hc) hletters hc hd htext
      exact absurd hlower h
    · simp [hd]
  · rfl

/-- No tag opens with a slash. -/
theorem opening?_slash (hname : IsName name) : opening? .ignored name ('/' :: text) = none := by
  have hdrop : ('/' :: text).dropWhile isMarkupSpace = '/' :: text := rfl
  unfold opening?
  rw [hdrop]
  split
  · rename_i read d rest hread
    obtain ⟨htext, hlower⟩ := name?_eq_some_iff.1 hread
    cases read with
    | nil =>
      rw [lower, List.map_nil, eq_comm, lower, List.map_eq_nil_iff] at hlower
      exact absurd hlower hname.1
    | cons e read =>
      rw [List.cons_append, List.cons.injEq] at htext
      have hslash := hname.not_endsName_of_lower hlower (List.mem_cons_self (a := e))
      rw [← htext.1] at hslash
      exact absurd hslash (by decide)
  · rfl

/-- Without `>`, reading the inside of a tag goes on in another region. -/
theorem tagEnd?_append {s : Text} (h : '>' ∉ s) (region : Region) (t : Text) :
    tagEnd? region (s ++ t) =
      (tagEnd? (s.foldl Region.next region) t).map fun found ↦ (s ++ found.1, found.2) := by
  induction s generalizing region with
  | nil => simp
  | cons c s ih =>
    rw [List.mem_cons, not_or] at h
    have hc : (decide (c = '>') && !region.isQuoted) = false := by
      simp [Ne.symm h.1]
    simp only [List.cons_append, tagEnd?, hc, Bool.false_eq_true, if_false, ih h.2, List.foldl_cons,
      Option.map_map]
    rfl

theorem tagEnd?_of_isQuoted {s : Text} (h : '>' ∉ s) {region : Region}
    (hregion : (s.foldl Region.next region).isQuoted = false) (t : Text) :
    tagEnd? region (s ++ '>' :: t) = some (s, t) := by
  rw [tagEnd?_append h]
  simp [tagEnd?, hregion]

end Opening

/-! ## Closing tags -/

section Closing

variable {name other text : Text}

theorem closing?_of_lower (hother : IsName other) (h : lower other = lower name) (text : Text) :
    closing? .ignored name ('/' :: other ++ '>' :: text) = some ('/' :: other ++ ['>'], text) := by
  have hread : Tag.name? .ignored name (other ++ '>' :: text) = some (other, '>' :: text) :=
    name?_eq_some_iff.2 ⟨rfl, h⟩
  have htake : (other ++ '>' :: text).takeWhile isMarkupSpace = [] := by
    have hsplit := List.takeWhile_append_dropWhile (p := isMarkupSpace) (l := other ++ '>' :: text)
    rw [hother.dropWhile_append] at hsplit
    exact List.append_left_eq_self.1 hsplit
  have hslash (text : Text) : ('/' :: text).dropWhile isMarkupSpace = '/' :: text := rfl
  have hbefore (text : Text) : ('/' :: text).takeWhile isMarkupSpace = [] := rfl
  have hbehind (text : Text) : ('>' :: text).dropWhile isMarkupSpace = '>' :: text := rfl
  have hafter (text : Text) : ('>' :: text).takeWhile isMarkupSpace = [] := rfl
  simp only [List.cons_append, closing?, hslash, hother.dropWhile_append, hread, hbefore, hbehind,
    hafter, htake, List.nil_append, List.append_nil]

theorem closing?_of_lower_ne (hname : IsName name) (hother : IsName other)
    (h : lower other ≠ lower name) (text : Text) :
    closing? .ignored name ('/' :: other ++ '>' :: text) = none := by
  have hslash (text : Text) : ('/' :: text).dropWhile isMarkupSpace = '/' :: text := rfl
  simp only [List.cons_append, closing?, hslash, hother.dropWhile_append]
  split
  · rename_i read afterName hread
    split
    · rename_i rest hafter
      obtain ⟨htext, hlower⟩ := name?_eq_some_iff.1 hread
      have hletters : ∀ c ∈ read, endsName c = false :=
        fun c hc ↦ hname.not_endsName_of_lower hlower hc
      -- What follows the name that was read ends a name: it is white space or `>`.
      have hend : ∃ c rest, afterName = c :: rest ∧ endsName c = true := by
        cases afterName with
        | nil => simp at hafter
        | cons c rest =>
          refine ⟨c, rest, rfl, ?_⟩
          by_cases hspace : isMarkupSpace c = true
          · simp [endsName, hspace]
          · rw [List.dropWhile_cons_of_neg hspace, List.cons.injEq] at hafter
            rw [hafter.1]
            decide
      obtain ⟨c, rest, rfl, hc⟩ := hend
      obtain ⟨rfl, _⟩ :=
        append_inj_of_endsName (fun c hc ↦ hother.not_endsName hc) hletters (by decide) hc htext
      exact absurd hlower h
    · rfl
  · rfl

/-- An opening tag closes nothing. -/
theorem closing?_of_isName (hother : IsName other) :
    closing? .ignored name (other ++ text) = none := by
  unfold closing?
  rw [hother.dropWhile_append]
  split
  · rename_i afterSlash hslash
    cases other with
    | nil => exact absurd rfl hother.1
    | cons c other =>
      have hc := hother.not_endsName List.mem_cons_self
      rw [List.cons_append, List.cons.injEq] at hslash
      rw [hslash.1] at hc
      exact absurd hc (by decide)
  · rfl

theorem inner?_cons_of_closingAt? {mode : LetterCase} {c : Char}
    (h : closingAt? mode name (c :: text) = none) :
    inner? mode name (c :: text) =
      (inner? mode name text).map fun found ↦ (c :: found.1, found.2) := by
  rw [inner?, h]

/-- No closing tag begins in a text without `<`. -/
theorem inner?_append {mode : LetterCase} {s : Text} (h : '<' ∉ s) (t : Text) :
    inner? mode name (s ++ t) = (inner? mode name t).map fun found ↦ (s ++ found.1, found.2) := by
  induction s with
  | nil => simp
  | cons c s ih =>
    rw [List.mem_cons, not_or] at h
    have hc : closingAt? mode name (c :: (s ++ t)) = none := by
      unfold closingAt?
      split
      · rename_i heq
        exact absurd (List.cons.inj heq).1.symm h.1
      · rfl
    rw [List.cons_append, inner?_cons_of_closingAt? hc, ih h.2, Option.map_map]
    rfl

end Closing

/-! ## Occurrences -/

section Occurrences

variable {mode : LetterCase} {name text : Text}

theorem occurrences_of_ne_nil (hname : name ≠ []) (source : Text) :
    occurrences mode name source = (occurrencesFrom mode name source).map Prod.snd := by
  rw [occurrences, scan, if_neg (by simpa using hname)]

theorem occurrencesFrom_of_first?_eq_some {source before rest : Text} {occurrence : Occurrence}
    (h : first? mode name source = some (before, occurrence, rest)) :
    occurrencesFrom mode name source = (before, occurrence) :: occurrencesFrom mode name rest := by
  rw [occurrencesFrom]
  split
  · rename_i hnone
    simp [h] at hnone
  · rename_i before' occurrence' rest' hsome
    rw [h, Option.some.injEq, Prod.mk.injEq, Prod.mk.injEq] at hsome
    obtain ⟨rfl, rfl, rfl⟩ := hsome
    rfl

theorem occurrencesFrom_of_first?_eq_none {source : Text} (h : first? mode name source = none) :
    occurrencesFrom mode name source = [] := by
  rw [occurrencesFrom]
  split
  · rfl
  · rename_i hsome
    simp [h] at hsome

theorem occurrences_of_first?_eq_some (hname : name ≠ []) {source before rest : Text}
    {occurrence : Occurrence} (h : first? mode name source = some (before, occurrence, rest)) :
    occurrences mode name source = occurrence :: occurrences mode name rest := by
  rw [occurrences_of_ne_nil hname, occurrences_of_ne_nil hname,
    occurrencesFrom_of_first?_eq_some h, List.map_cons]

theorem occurrences_of_first?_eq_none (hname : name ≠ []) {source : Text}
    (h : first? mode name source = none) : occurrences mode name source = [] := by
  rw [occurrences_of_ne_nil hname, occurrencesFrom_of_first?_eq_none h, List.map_nil]

@[simp] theorem occurrences_nil (hname : name ≠ []) : occurrences mode name [] = [] :=
  occurrences_of_first?_eq_none hname rfl

/-- An opening tag that ends is an occurrence where it stands. -/
theorem first?_of_opening? {gap read inside inTag behind : Text}
    (hopening : opening? mode name text = some (gap, read, inside))
    (hend : tagEnd? .plain inside = some (inTag, behind)) :
    first? mode name ('<' :: text) =
      some ([], ⟨gap, read, (ending mode name inTag behind).1, (ending mode name inTag behind).2.1⟩,
        (ending mode name inTag behind).2.2) := by
  rw [first?, if_pos rfl, hopening]
  show (tagEnd? .plain inside).map _ = _
  rw [hend, Option.map_some]

/-- A search goes on behind a character that opens no tag of its name. -/
theorem first?_cons {c : Char} (h : c = '<' → opening? mode name text = none) :
    first? mode name (c :: text) =
      (first? mode name text).map fun found ↦ (c :: found.1, found.2) := by
  rw [first?]
  by_cases hc : c = '<'
  · rw [if_pos hc, h hc]
  · rw [if_neg hc]

/-- A search passes over a character that opens no tag of its name. -/
theorem occurrences_cons (hname : name ≠ []) {c : Char}
    (h : c = '<' → opening? mode name text = none) :
    occurrences mode name (c :: text) = occurrences mode name text := by
  have hfirst := first?_cons h
  cases hrest : first? mode name text with
  | none =>
    rw [hrest, Option.map_none] at hfirst
    rw [occurrences_of_first?_eq_none hname hfirst, occurrences_of_first?_eq_none hname hrest]
  | some found =>
    rw [hrest, Option.map_some] at hfirst
    rw [occurrences_of_first?_eq_some hname hfirst, occurrences_of_first?_eq_some hname hrest]

theorem occurrences_append (hname : name ≠ []) {s : Text} (h : '<' ∉ s) (t : Text) :
    occurrences mode name (s ++ t) = occurrences mode name t := by
  induction s with
  | nil => rfl
  | cons c s ih =>
    rw [List.mem_cons, not_or] at h
    rw [List.cons_append, occurrences_cons hname fun hc ↦ absurd hc.symm h.1, ih h.2]

/-- A search that does not begin with an opening tag of its name passes over something. -/
theorem first?_before_ne_nil {source before rest : Text} {occurrence : Occurrence}
    (hopening : opening? mode name text = none) (hsource : source = '<' :: text)
    (h : first? mode name source = some (before, occurrence, rest)) : before ≠ [] := by
  rw [hsource, first?, if_pos rfl, hopening, Option.map_eq_some_iff] at h
  obtain ⟨found, _, hfound⟩ := h
  rw [Prod.mk.injEq] at hfound
  rw [← hfound.1]
  exact List.cons_ne_nil _ _

end Occurrences

end ComponentMarkup.Tag
