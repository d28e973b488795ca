import ComponentMarkup.Tag.Occurrence

/-!
# Finding the occurrences of a tag

Markup is searched for one tag name at a time and no tree is built. White space may follow `<`;
the name ends at white space, `/` or `>`; a quote opens a quoted value only after `=`, and a `>`
inside a quoted value does not end the tag. An occurrence runs to the first closing tag of the
name, so a nested tag of the same name closes early. The search goes on behind the occurrence.

Each recogniser returns what it has read together with what follows it, and the two together are
the text that it was given.
-/

namespace ComponentMarkup.Tag

open Text

/-- Reads a name as `mode` compares it: the name as it was written and what follows it. -/
def name? (mode : LetterCase) : (name text : Text) → Option (Text × Text)
  | [], text => some ([], text)
  | _ :: _, [] => none
  | a :: name, c :: text =>
    if mode.agrees a c then (name? mode name text).map fun (read, rest) => (c :: read, rest)
    else none

/-- The character after the name of an opening tag. -/
def endsName (c : Char) : Bool := isMarkupSpace c || c = '/' || c = '>'

/-- Reads white space and the name behind a `<`: the two, and what follows them. -/
def opening? (mode : LetterCase) (name text : Text) : Option (Text × Text × Text) :=
  match name? mode name (text.dropWhile isMarkupSpace) with
  | some (read, c :: rest) =>
    if endsName c then some (text.takeWhile isMarkupSpace, read, c :: rest) else none
  | _ => none

/-- Where a character of an opening tag stands. -/
inductive Region where
  /-- Outside quotes, with no `=` as the last character that is not white space. -/
  | plain
  /-- Outside quotes, behind `=` or a quoted value. -/
  | value
  /-- Inside a value that `quote` closes. -/
  | quoted (quote : Char)
  deriving DecidableEq, Repr

namespace Region

def isQuoted : Region → Bool
  | quoted _ => true
  | _ => false

/-- The region behind a character. -/
def next : Region → Char → Region
  | quoted quote, c => if c = quote then value else quoted quote
  | plain, c => if c = '=' then value else plain
  | value, c =>
    if c = '"' || c = '\'' then quoted c
    else if c = '=' || isMarkupSpace c then value
    else plain

end Region

/-- Reads up to the first `>` outside quotes: the text before it and the text behind it. -/
def tagEnd? (region : Region) : Text → Option (Text × Text)
  | [] => none
  | c :: text =>
    if c = '>' && !region.isQuoted then some ([], text)
    else (tagEnd? (region.next c) text).map fun (before, behind) => (c :: before, behind)

/-- Reads `/`, the name and `>` behind a `<`, with white space between them. -/
def closing? (mode : LetterCase) (name text : Text) : Option (Text × Text) :=
  match text.dropWhile isMarkupSpace with
  | '/' :: afterSlash =>
    match name? mode name (afterSlash.dropWhile isMarkupSpace) with
    | some (read, afterName) =>
      match afterName.dropWhile isMarkupSpace with
      | '>' :: rest =>
        some (text.takeWhile isMarkupSpace ++ '/' :: afterSlash.takeWhile isMarkupSpace
          ++ read ++ afterName.takeWhile isMarkupSpace ++ ['>'], rest)
      | _ => none
    | none => none
  | _ => none

/-- The closing tag that a text begins with, and what follows it. -/
def closingAt? (mode : LetterCase) (name : Text) : Text → Option (Text × Text)
  | '<' :: text => (closing? mode name text).map fun (read, rest) => ('<' :: read, rest)
  | _ => none

/-- Reads up to the first closing tag: the text before it, the tag, and the text behind it. -/
def inner? (mode : LetterCase) (name : Text) : Text → Option (Text × Text × Text)
  | [] => none
  | c :: text =>
    match closingAt? mode name (c :: text) with
    | some (closing, rest) => some ([], closing, rest)
    | none => (inner? mode name text).map fun (inner, found) => (c :: inner, found)

/-- The ending of an occurrence and what follows it, from all that stands between the name and
the `>` of the opening tag and from the text behind that `>`. -/
def ending (mode : LetterCase) (name inTag behind : Text) : Text × Ending × Text :=
  if inTag.getLast? = some '/' then (inTag.dropLast, .selfClosing, behind)
  else match inner? mode name behind with
    | some (inner, closing, rest) => (inTag, .closed inner closing, rest)
    | none => (inTag, .unclosed, behind)

/-- The first occurrence of a name, between the text before it and the text behind it. An opening
tag that does not end hides everything behind it. -/
def first? (mode : LetterCase) (name : Text) : Text → Option (Text × Occurrence × Text)
  | [] => none
  | c :: text =>
    match if c = '<' then opening? mode name text else none with
    | some (gap, read, inside) =>
      (tagEnd? .plain inside).map fun (inTag, behind) =>
        let (attributes, ending, rest) := ending mode name inTag behind
        ([], ⟨gap, read, attributes, ending⟩, rest)
    | none => (first? mode name text).map fun (before, found) => (c :: before, found)

/-- A name that was read and what follows it are the text. -/
theorem name?_eq {mode : LetterCase} {name text read rest : Text}
    (h : name? mode name text = some (read, rest)) : text = read ++ rest := by
  induction name generalizing text read with
  | nil => simp_all [name?]
  | cons a name ih =>
    cases text with
    | nil => simp [name?] at h
    | cons c text =>
      simp only [name?] at h
      split at h
      · simp only [Option.map_eq_some_iff, Prod.exists, Prod.mk.injEq] at h
        obtain ⟨r, _, hr, rfl, rfl⟩ := h
        simp [ih hr]
      · simp at h

theorem opening?_eq {mode : LetterCase} {name text gap read rest : Text}
    (h : opening? mode name text = some (gap, read, rest)) : text = gap ++ read ++ rest := by
  simp only [opening?] at h
  split at h
  · rename_i r c t hn
    split at h
    · simp only [Option.some.injEq, Prod.mk.injEq] at h
      obtain ⟨rfl, rfl, rfl⟩ := h
      rw [List.append_assoc, ← name?_eq hn, List.takeWhile_append_dropWhile]
    · simp at h
  · simp at h

theorem tagEnd?_eq {region : Region} {text before behind : Text}
    (h : tagEnd? region text = some (before, behind)) : text = before ++ '>' :: behind := by
  induction text generalizing region before with
  | nil => simp [tagEnd?] at h
  | cons c text ih =>
    simp only [tagEnd?] at h
    split at h
    · rename_i hc
      simp only [Option.some.injEq, Prod.mk.injEq] at h
      obtain ⟨rfl, rfl⟩ := h
      simp only [Bool.and_eq_true, decide_eq_true_eq] at hc
      simp [hc.1]
    · simp only [Option.map_eq_some_iff, Prod.exists, Prod.mk.injEq] at h
      obtain ⟨b, _, hb, rfl, rfl⟩ := h
      simp [ih hb]

theorem closing?_eq {mode : LetterCase} {name text closing rest : Text}
    (h : closing? mode name text = some (closing, rest)) : text = closing ++ rest := by
  simp only [closing?] at h
  split at h
  · rename_i afterSlash hs
    split at h
    · rename_i read afterName hn
      split at h
      · rename_i r hr
        simp only [Option.some.injEq, Prod.mk.injEq] at h
        obtain ⟨rfl, rfl⟩ := h
        have ht := List.takeWhile_append_dropWhile (p := isMarkupSpace) (l := text)
        have ha := List.takeWhile_append_dropWhile (p := isMarkupSpace) (l := afterSlash)
        have hb := List.takeWhile_append_dropWhile (p := isMarkupSpace) (l := afterName)
        rw [hs] at ht
        rw [name?_eq hn] at ha
        rw [hr] at hb
        generalize List.takeWhile isMarkupSpace text = u at ht ⊢
        generalize List.takeWhile isMarkupSpace afterSlash = v at ha ⊢
        generalize List.takeWhile isMarkupSpace afterName = w at hb ⊢
        rw [← ht, ← ha, ← hb]
        simp
      · simp at h
    · simp at h
  · simp at h

theorem closingAt?_eq {mode : LetterCase} {name text closing rest : Text}
    (h : closingAt? mode name text = some (closing, rest)) : text = closing ++ rest := by
  unfold closingAt? at h
  split at h
  · simp only [Option.map_eq_some_iff, Prod.exists, Prod.mk.injEq] at h
    obtain ⟨r, _, hr, rfl, rfl⟩ := h
    simp [closing?_eq hr]
  · simp at h

theorem inner?_eq {mode : LetterCase} {name text inner closing rest : Text}
    (h : inner? mode name text = some (inner, closing, rest)) :
    text = inner ++ closing ++ rest := by
  induction text generalizing inner with
  | nil => simp [inner?] at h
  | cons c text ih =>
    simp only [inner?] at h
    split at h
    · rename_i hc
      simp only [Option.some.injEq, Prod.mk.injEq] at h
      obtain ⟨rfl, rfl, rfl⟩ := h
      simpa using closingAt?_eq hc
    · simp only [Option.map_eq_some_iff, Prod.exists, Prod.mk.injEq] at h
      obtain ⟨i, _, _, hi, rfl, rfl, rfl⟩ := h
      simp [ih hi]

theorem ending_eq (mode : LetterCase) (name inTag behind : Text) :
    (ending mode name inTag behind).1 ++ (ending mode name inTag behind).2.1.text
      ++ (ending mode name inTag behind).2.2 = inTag ++ '>' :: behind := by
  unfold ending
  split
  · rename_i hl
    obtain ⟨init, rfl⟩ := List.getLast?_eq_some_iff.1 hl
    simp [Ending.text]
  · split
    · rename_i hi
      simp [Ending.text, inner?_eq hi]
    · simp [Ending.text]

/-- The text before the first occurrence, its own text and the text behind it are the source. -/
theorem first?_eq {mode : LetterCase} {name source before rest : Text} {o : Occurrence}
    (h : first? mode name source = some (before, o, rest)) :
    source = before ++ o.text ++ rest := by
  induction source generalizing before with
  | nil => simp [first?] at h
  | cons c source ih =>
    simp only [first?] at h
    split at h
    · rename_i gap read inside ho
      split at ho
      · rename_i hc
        simp only [Option.map_eq_some_iff, Prod.exists, Prod.mk.injEq] at h
        obtain ⟨inTag, behind, ht, rfl, rfl, rfl⟩ := h
        have he := ending_eq mode name inTag behind
        rw [opening?_eq ho, tagEnd?_eq ht, ← he, hc]
        simp [Occurrence.text, Occurrence.front]
      · simp at ho
    · simp only [Option.map_eq_some_iff, Prod.exists, Prod.mk.injEq] at h
      obtain ⟨b, _, _, hb, rfl, rfl, rfl⟩ := h
      simp [ih hb]

theorem length_lt_of_first? {mode : LetterCase} {name source before rest : Text} {o : Occurrence}
    (h : first? mode name source = some (before, o, rest)) : rest.length < source.length := by
  rw [first?_eq h]
  simp [Occurrence.text, Occurrence.front]
  omega

/-- The occurrences of a name from left to right, each with the text between the occurrence before
it and itself. -/
def occurrencesFrom (mode : LetterCase) (name source : Text) : List (Text × Occurrence) :=
  match _h : first? mode name source with
  | none => []
  | some (before, occurrence, rest) =>
    (before, occurrence) :: occurrencesFrom mode name rest
termination_by source.length
decreasing_by exact length_lt_of_first? _h

/-- The occurrences of a name, each with the text skipped before it. The empty name has none. -/
def scan (mode : LetterCase) (name source : Text) : List (Text × Occurrence) :=
  if name.isEmpty then [] else occurrencesFrom mode name source

/-- The occurrences of a name from left to right. -/
def occurrences (mode : LetterCase) (name source : Text) : List Occurrence :=
  (scan mode name source).map Prod.snd

/-- Puts each occurrence in its place, `start` bytes having been passed. -/
def place (start : Nat) : List (Text × Occurrence) → List Placed
  | [] => []
  | (before, occurrence) :: rest =>
    let here := start + before.byteLength
    ⟨here, occurrence⟩ :: place (here + occurrence.text.byteLength) rest

/-- The occurrences of a name with their places in the source. -/
def placedOccurrences (mode : LetterCase) (name source : Text) : List Placed :=
  place 0 (scan mode name source)

end ComponentMarkup.Tag
