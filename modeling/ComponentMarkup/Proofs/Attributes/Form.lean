import ComponentMarkup.Attributes
import ComponentMarkup.Proofs.Dict.Settled
import ComponentMarkup.Proofs.Text.Solid

/-!
# Attributes as they are written

An attribute is written as white space and a name, alone or with a value behind `=`. The value
stands between two quotes of one kind or without quotes, and white space may stand around `=`.
Attributes that are written one after the other are read as the names and values that were written.
-/

namespace ComponentMarkup

open Text

namespace Attributes

/-! ## What is written -/

/-- White space as it stands inside a tag. -/
structure Gap where
  text : Text
  isSpace : ∀ c ∈ text, isMarkupSpace c = true

/-- A value between two quotes of one kind, none of which is in it. -/
structure Quoted where
  quote : Char
  content : Text
  quote_eq : quote = '"' ∨ quote = '\''
  quote_not_mem : quote ∉ content

theorem Quoted.quote_eq_double : '"' = '"' ∨ '"' = '\'' := Or.inl rfl

/-- A value without quotes. -/
structure Bare where
  content : Text
  ne_nil : content ≠ []
  isBare : ∀ c ∈ content, isBareValueChar c = true

inductive Value where
  | quoted (quoted : Quoted)
  | bare (bare : Bare)

/-- A value behind `=`, with white space around `=`. -/
structure Assignment where
  before : Gap
  behind : Gap
  value : Value

/-- A name, alone or with a value, and the white space in front of it. -/
structure Form where
  gap : Gap
  name : Text
  assignment : Option Assignment
  gap_ne_nil : gap.text ≠ []
  name_ne_nil : name ≠ []
  isName : ∀ c ∈ name, isNameChar c = true

def Quoted.text (quoted : Quoted) : Text := quoted.quote :: quoted.content ++ [quoted.quote]

namespace Value

def text : Value → Text
  | .quoted inQuotes => inQuotes.text
  | .bare alone => alone.content

def content : Value → Text
  | .quoted inQuotes => inQuotes.content
  | .bare alone => alone.content

end Value

def Assignment.text (assignment : Assignment) : Text :=
  assignment.before.text ++ '=' :: assignment.behind.text ++ assignment.value.text

namespace Form

/-- All behind the name. -/
def assigned (form : Form) : Text := (form.assignment.map Assignment.text).getD []

def text (form : Form) : Text := form.gap.text ++ form.name ++ form.assigned

/-- The name and the value; without a value the empty one. -/
def pair (form : Form) : Text × Text :=
  (form.name, (form.assignment.map (·.value.content)).getD [])

/-- Attributes one after the other. -/
def textOf (forms : List Form) : Text := forms.flatMap text

end Form

/-! ## Characters -/

section Characters

variable {c : Char}

theorem isNameChar_iff : isNameChar c = true ↔
    isBlank c = false ∧ c ≠ '=' ∧ c ≠ '"' ∧ c ≠ '\'' ∧ c ≠ '/' := by
  simp [isNameChar, and_assoc]

theorem isBareValueChar_iff : isBareValueChar c = true ↔
    isBlank c = false ∧ c ≠ '"' ∧ c ≠ '\'' ∧ c ≠ '>' := by
  simp [isBareValueChar, and_assoc]

theorem isNameChar_of_isBlank (h : isBlank c = true) : isNameChar c = false := by
  simp [isNameChar, h]

end Characters

namespace Gap

def none : Gap := ⟨[], List.forall_mem_nil _⟩

def space : Gap := ⟨[' '], List.all_eq_true.1 rfl⟩

theorem space_ne_nil : space.text ≠ [] := List.cons_ne_nil _ _

variable (gap : Gap)

theorem isBlank : ∀ c ∈ gap.text, Text.isBlank c = true :=
  fun c hc ↦ isBlank_of_isMarkupSpace (gap.isSpace c hc)

theorem dropWhile_append {text : Text} (h : ∀ c ∈ text.head?, Text.isBlank c = false) :
    (gap.text ++ text).dropWhile Text.isBlank = text :=
  (takeWhile_append_of_head gap.isBlank h).2

end Gap

/-! ## Names and values -/

section Pairs

theorem pairs_eq_nil {text : Text} (h : text.dropWhile (!isNameChar ·) = []) : pairs text = [] := by
  rw [pairs]
  split
  · rfl
  · rename_i hcons
    simp [h] at hcons

/-- A name that no value follows has the empty one. -/
theorem pairs_of_value?_eq_none {text rest : Text} {c : Char}
    (h : text.dropWhile (!isNameChar ·) = c :: rest)
    (hvalue : value? (rest.dropWhile isNameChar) = none) :
    pairs text = (c :: rest.takeWhile isNameChar, []) :: pairs (rest.dropWhile isNameChar) := by
  rw [pairs]
  split
  · rename_i hnil
    simp [h] at hnil
  · rename_i d others hcons
    rw [h, List.cons.injEq] at hcons
    obtain ⟨rfl, rfl⟩ := hcons
    split
    · rename_i hsome
      simp [hvalue] at hsome
    · rfl

theorem pairs_of_value?_eq_some {text rest value after : Text} {c : Char}
    (h : text.dropWhile (!isNameChar ·) = c :: rest)
    (hvalue : value? (rest.dropWhile isNameChar) = some (value, after)) :
    pairs text = (c :: rest.takeWhile isNameChar, value) :: pairs after := by
  rw [pairs]
  split
  · rename_i hnil
    simp [h] at hnil
  · rename_i d others hcons
    rw [h, List.cons.injEq] at hcons
    obtain ⟨rfl, rfl⟩ := hcons
    split
    · rename_i hsome
      rw [hvalue, Option.some.injEq, Prod.mk.injEq] at hsome
      rw [hsome.1, hsome.2]
    · rename_i hnone
      simp [hvalue] at hnone

/-- What stands in front of the first name does not count. -/
theorem pairs_congr {s t : Text}
    (h : s.dropWhile (!isNameChar ·) = t.dropWhile (!isNameChar ·)) : pairs s = pairs t := by
  cases ht : t.dropWhile (!isNameChar ·) with
  | nil => rw [pairs_eq_nil ht, pairs_eq_nil (h.trans ht)]
  | cons c rest =>
    cases hvalue : value? (rest.dropWhile isNameChar) with
    | none => rw [pairs_of_value?_eq_none ht hvalue, pairs_of_value?_eq_none (h.trans ht) hvalue]
    | some found =>
      rw [pairs_of_value?_eq_some ht hvalue, pairs_of_value?_eq_some (h.trans ht) hvalue]

theorem Quoted.quotedValue? (quoted : Quoted) (t : Text) :
    Attributes.quotedValue? quoted.quote (quoted.content ++ quoted.quote :: t) =
      some (quoted.content, t) := by
  have hne : ∀ c ∈ quoted.content, decide (c ≠ quoted.quote) = true :=
    fun c hc ↦ decide_eq_true fun h ↦ quoted.quote_not_mem (h ▸ hc)
  rw [Attributes.quotedValue?, List.dropWhile_append_of_pos hne, List.takeWhile_append_of_pos hne]
  simp

theorem Quoted.valueHere? (quoted : Quoted) (t : Text) :
    Attributes.valueHere? (quoted.text ++ t) = some (quoted.content, t) := by
  have hread := quoted.quotedValue? t
  have htext : quoted.text ++ t = quoted.quote :: (quoted.content ++ quoted.quote :: t) := by
    simp [Quoted.text]
  rw [htext]
  rcases quoted.quote_eq with h | h <;> rw [h] at hread ⊢ <;> exact hread

theorem Bare.valueHere? (bare : Bare) {t : Text} (ht : ∀ c ∈ t.head?, isBareValueChar c = false) :
    Attributes.valueHere? (bare.content ++ t) = some (bare.content, t) := by
  obtain ⟨htake, hdrop⟩ := takeWhile_append_of_head bare.isBare ht
  have hempty : bare.content.isEmpty = false := by simpa using bare.ne_nil
  have hfirst : ∀ c ∈ (bare.content ++ t).head?, isBareValueChar c = true := by
    rw [List.head?_append_of_ne_nil _ bare.ne_nil]
    exact fun c hc ↦ bare.isBare c (List.mem_of_mem_head? hc)
  rw [Attributes.valueHere?, htake, hdrop, hempty]
  · rfl
  · intro rest htext
    rw [htext] at hfirst
    exact absurd (hfirst '"' rfl) (by decide)
  · intro rest htext
    rw [htext] at hfirst
    exact absurd (hfirst '\'' rfl) (by decide)

theorem Value.isBlank_head? (value : Value) (t : Text) :
    ∀ c ∈ (value.text ++ t).head?, isBlank c = false := by
  cases value with
  | quoted quoted =>
    have hquote : isBlank quoted.quote = false := by
      rcases quoted.quote_eq with h | h <;> rw [h] <;> decide
    simpa [Value.text, Quoted.text] using hquote
  | bare bare =>
    rw [Value.text, List.head?_append_of_ne_nil _ bare.ne_nil]
    exact fun c hc ↦ (isBareValueChar_iff.1 (bare.isBare c (List.mem_of_mem_head? hc))).1

/-- What may stand behind an attribute: white space or nothing, and no value. -/
structure IsBehind (t : Text) : Prop where
  isBlank : ∀ c ∈ t.head?, isBlank c = true
  value?_eq : value? t = none

theorem isBehind_nil : IsBehind [] where
  isBlank := by simp
  value?_eq := rfl

theorem Assignment.value? (assignment : Assignment) {t : Text} (ht : IsBehind t) :
    Attributes.value? (assignment.text ++ t) = some (assignment.value.content, t) := by
  have hequals : ∀ c ∈ ('=' :: (assignment.behind.text ++ (assignment.value.text ++ t))).head?,
      isBlank c = false := by simp; decide
  have htext : assignment.text ++ t = assignment.before.text ++
      '=' :: (assignment.behind.text ++ (assignment.value.text ++ t)) := by
    simp [Assignment.text]
  have hbehind := assignment.behind.dropWhile_append (assignment.value.isBlank_head? t)
  rw [htext, Attributes.value?, assignment.before.dropWhile_append hequals]
  show Attributes.valueHere? (List.dropWhile _ _) = _
  rw [hbehind]
  cases assignment.value with
  | quoted quoted => exact quoted.valueHere? t
  | bare bare =>
    apply bare.valueHere?
    intro c hc
    simp [isBareValueChar, ht.isBlank c hc]

namespace Form

variable {form : Form} {t : Text}

/-- Nothing behind a name continues it. -/
theorem isNameChar_head?_assigned (form : Form) (ht : IsBehind t) :
    ∀ c ∈ (form.assigned ++ t).head?, isNameChar c = false := by
  rw [assigned]
  cases form.assignment with
  | none => exact fun c hc ↦ isNameChar_of_isBlank (ht.isBlank c hc)
  | some assignment =>
    intro c hc
    cases hbefore : assignment.before.text with
    | nil =>
      rw [Option.map_some, Option.getD_some, Assignment.text, hbefore] at hc
      rw [← Option.some.inj hc]
      decide
    | cons d gap =>
      rw [Option.map_some, Option.getD_some, Assignment.text, hbefore] at hc
      rw [← Option.some.inj hc]
      exact isNameChar_of_isBlank (assignment.before.isBlank d (by simp [hbefore]))

/-- An attribute is read as it was written, and what stands behind it is read on its own. -/
theorem pairs_text_append (form : Form) (ht : IsBehind t) :
    pairs (form.text ++ t) = form.pair :: pairs t := by
  obtain ⟨c, name, hname⟩ := List.exists_cons_of_ne_nil form.name_ne_nil
  have hchars : ∀ d ∈ c :: name, isNameChar d = true :=
    hname ▸ form.isName
  obtain ⟨hc, hrest⟩ := List.forall_mem_cons.1 hchars
  have hdrop : (form.text ++ t).dropWhile (!isNameChar ·) =
      c :: (name ++ (form.assigned ++ t)) := by
    have hgap : ∀ d ∈ form.gap.text, (!isNameChar d) = true :=
      fun d hd ↦ by rw [isNameChar_of_isBlank (form.gap.isBlank d hd)]; rfl
    rw [text, hname, List.append_assoc, List.append_assoc, List.dropWhile_append_of_pos hgap]
    simp [hc]
  obtain ⟨htake, hafter⟩ :=
    takeWhile_append_of_head hrest (form.isNameChar_head?_assigned ht)
  rw [pair, hname]
  cases hassignment : form.assignment with
  | none =>
    have hassigned : form.assigned = [] := by rw [assigned, hassignment]; rfl
    rw [pairs_of_value?_eq_none hdrop, htake, hafter, hassigned]
    · rfl
    · rw [hafter, hassigned]
      exact ht.value?_eq
  | some assignment =>
    have hassigned : form.assigned = assignment.text := by rw [assigned, hassignment]; rfl
    have hvalue := assignment.value? ht
    rw [← hassigned, ← hafter] at hvalue
    rw [pairs_of_value?_eq_some hdrop hvalue, htake]
    rfl

theorem isMarkupSpace_head?_textOf (forms : List Form) :
    ∀ c ∈ (textOf forms).head?, isMarkupSpace c = true := by
  cases forms with
  | nil => simp [textOf]
  | cons form rest =>
    rw [textOf, List.flatMap_cons, text, List.append_assoc, List.append_assoc,
      List.head?_append_of_ne_nil _ form.gap_ne_nil]
    exact fun c hc ↦ form.gap.isSpace c (List.mem_of_mem_head? hc)

theorem isBehind_textOf (forms : List Form) : IsBehind (textOf forms) := by
  cases forms with
  | nil => exact isBehind_nil
  | cons form rest =>
    obtain ⟨c, name, hname⟩ := List.exists_cons_of_ne_nil form.name_ne_nil
    obtain ⟨hblank, hequals, _⟩ :=
      isNameChar_iff.1 (form.isName c (by rw [hname]; exact List.mem_cons_self))
    have htext : textOf (form :: rest) =
        form.gap.text ++ c :: (name ++ form.assigned ++ textOf rest) := by
      simp [textOf, text, hname]
    have hfirst : ∀ d ∈ (c :: (name ++ form.assigned ++ textOf rest)).head?,
        isBlank d = false := by simp [hblank]
    have hdrop := form.gap.dropWhile_append hfirst
    constructor
    · exact fun d hd ↦ isBlank_of_isMarkupSpace (isMarkupSpace_head?_textOf _ d hd)
    · rw [htext, value?, hdrop]
      split
      · rename_i heq
        exact absurd (List.cons.inj heq).1 hequals
      · rfl

theorem pairs_textOf (forms : List Form) : pairs (textOf forms) = forms.map pair := by
  induction forms with
  | nil => exact pairs_eq_nil rfl
  | cons form rest ih =>
    have hread := form.pairs_text_append (isBehind_textOf rest)
    rwa [ih] at hread

end Form

end Pairs

/-! ## Reading -/

theorem Gap.pairs_append (gap : Gap) (t : Text) : pairs (gap.text ++ t) = pairs t := by
  apply pairs_congr
  apply List.dropWhile_append_of_pos
  intro c hc
  rw [isNameChar_of_isBlank (gap.isBlank c hc)]
  rfl

theorem Value.isSolid (value : Value) : IsSolid value.text := by
  cases value with
  | quoted quoted =>
    have hquote : isBlank quoted.quote = false := by
      rcases quoted.quote_eq with h | h <;> rw [h] <;> decide
    exact (IsSolid.singleton hquote).append (IsSolid.singleton hquote) quoted.content
  | bare bare =>
    exact .of_forall bare.ne_nil fun c hc ↦ (isBareValueChar_iff.1 (bare.isBare c hc)).1

namespace Form

theorem isSolid_name (form : Form) : IsSolid form.name :=
  .of_forall form.name_ne_nil fun c hc ↦ (isNameChar_iff.1 (form.isName c hc)).1

theorem isSolid_name_append_assigned (form : Form) :
    IsSolid (form.name ++ form.assigned) := by
  rw [assigned]
  cases form.assignment with
  | none => simpa using form.isSolid_name
  | some assignment =>
    have hsolid := form.isSolid_name.append assignment.value.isSolid
      (assignment.before.text ++ '=' :: assignment.behind.text)
    simpa [Assignment.text] using hsolid

/-- Without the white space in front of them, attributes are solid. -/
theorem isSolid_append_textOf (form : Form) (rest : List Form) :
    IsSolid (form.name ++ form.assigned ++ textOf rest) := by
  induction rest generalizing form with
  | nil => simpa [textOf] using form.isSolid_name_append_assigned
  | cons next rest ih =>
    have hsolid := form.isSolid_name_append_assigned.append (ih next) next.gap.text
    simpa [textOf, text] using hsolid

/-- Reading gives back the names and values that were written, each name once. -/
theorem parse_textOf_append (forms : List Form) (after : Gap) :
    parse (textOf forms ++ after.text) = Dict.settled (forms.map pair) := by
  rw [parse, Dict.ofPairs_eq_settled]
  congr 1
  cases forms with
  | nil =>
    have htrim : trim (textOf [] ++ after.text) = [] := by
      have hdrop : after.text.dropWhile isBlank = [] := by simpa using after.isBlank
      rw [textOf, List.flatMap_nil, List.nil_append, trim, trimBy, hdrop]
      rfl
    rw [htrim]
    exact pairs_eq_nil rfl
  | cons form rest =>
    have htext : textOf (form :: rest) =
        form.gap.text ++ (form.name ++ form.assigned ++ textOf rest) := by
      simp [textOf, text]
    rw [htext, (form.isSolid_append_textOf rest).trim form.gap.isBlank after.isBlank,
      ← form.gap.pairs_append, ← htext, pairs_textOf]

end Form

end Attributes

end ComponentMarkup
