import ComponentMarkup.Proofs.Attributes.Form

/-!
# Reading attributes that were rendered

Attributes are rendered in two forms: a name alone, and a name with a value between double quotes,
in which the double quotes are written as references. Whatever text attributes are read from, their
names have no character that would end a name or an attribute. Rendered and read again they are the
same names in the same order, and every value is as it was rendered. So what was rendered once is
rendered the same way from then on.
-/

namespace ComponentMarkup.Attributes

open Text

/-! ## Names -/

/-- A name as it is read. -/
def IsReadName (name : Text) : Prop := name ≠ [] ∧ ∀ c ∈ name, isNameChar c = true

instance (name : Text) : Decidable (IsReadName name) :=
  have := List.decidableBAll (isNameChar · = true) name
  inferInstanceAs (Decidable (_ ∧ _))

/-- Every text has only names in it that can be read. -/
theorem isReadName_of_mem_pairs {text : Text} {pair : Text × Text} (h : pair ∈ pairs text) :
    IsReadName pair.1 := by
  have hname {text rest : Text} {c : Char} (hcons : text.dropWhile (!isNameChar ·) = c :: rest) :
      IsReadName (c :: rest.takeWhile isNameChar) := by
    have hc := List.head?_dropWhile_not (!isNameChar ·) text
    refine ⟨List.cons_ne_nil _ _, List.forall_mem_cons.2 ⟨?_, fun d ↦ List.mem_takeWhile_imp⟩⟩
    simpa [hcons] using hc
  -- With a value or without one, the name is the same longest run of its characters.
  fun_induction pairs text with
  | case1 => exact absurd h List.not_mem_nil
  | case2 text c rest hcons name value after hvalue ih =>
    rcases List.mem_cons.1 h with rfl | h
    · exact hname hcons
    · exact ih h
  | case3 text c rest hcons name hvalue ih =>
    rcases List.mem_cons.1 h with rfl | h
    · exact hname hcons
    · exact ih h

/-- Names that can be read, each one once. -/
structure IsRead (attributes : Attributes) : Prop where
  isReadName : ∀ name ∈ Dict.keys attributes, IsReadName name
  nodup : (Dict.keys attributes).Nodup

/-- Whatever is read has names that can be read, each one once. -/
theorem isRead_parse (text : Text) : IsRead (parse text) := by
  rw [parse, Dict.ofPairs_eq_settled]
  constructor
  · intro name hname
    obtain ⟨pair, hpair, rfl⟩ := List.mem_map.1 (Dict.mem_keys_settled.1 hname)
    exact isReadName_of_mem_pairs hpair
  · exact Dict.nodup_keys_settled _

/-! ## Values -/

section Values

variable {value : Text}

theorem not_mem_escapeQuotes (value : Text) : '"' ∉ escapeQuotes value := by
  intro hmem
  obtain ⟨c, _, hc⟩ := List.mem_flatMap.1 hmem
  by_cases hquote : c = '"'
  · rw [if_pos hquote] at hc
    exact absurd hc (by decide)
  · rw [if_neg hquote, List.mem_singleton] at hc
    exact hquote hc.symm

theorem escapeQuotes_ne_nil (h : value ≠ []) : escapeQuotes value ≠ [] := by
  obtain ⟨c, rest, rfl⟩ := List.exists_cons_of_ne_nil h
  rw [escapeQuotes, List.flatMap_cons]
  split
  · exact List.append_ne_nil_of_left_ne_nil (by decide) _
  · exact List.append_ne_nil_of_left_ne_nil (List.cons_ne_nil c []) _

/-- A value without double quotes is written as it is. -/
theorem escapeQuotes_of_not_mem (h : '"' ∉ value) : escapeQuotes value = value := by
  induction value with
  | nil => rfl
  | cons c value ih =>
    rw [List.mem_cons, not_or] at h
    rw [escapeQuotes, List.flatMap_cons, if_neg (Ne.symm h.1), ← escapeQuotes, ih h.2]
    rfl

theorem escapeQuotes_escapeQuotes (value : Text) :
    escapeQuotes (escapeQuotes value) = escapeQuotes value :=
  escapeQuotes_of_not_mem (not_mem_escapeQuotes value)

theorem renderPair_of_ne_nil (name : Text) (h : value ≠ []) :
    renderPair (name, value) = ' ' :: name ++ ['=', '"'] ++ escapeQuotes value ++ ['"'] := by
  obtain ⟨c, rest, rfl⟩ := List.exists_cons_of_ne_nil h
  rfl

end Values

/-! ## Rendering -/

/-- The same names, and every value with references for its double quotes. -/
def escaped (attributes : Attributes) : Attributes :=
  attributes.map fun entry ↦ (entry.1, escapeQuotes entry.2)

theorem keys_escaped (attributes : Attributes) :
    Dict.keys (escaped attributes) = Dict.keys attributes := by
  rw [Dict.keys, escaped, List.map_map]
  rfl

/-- A name and a value are rendered in one of the forms of an attribute, the value in quotes. -/
theorem exists_form_eq (entry : Text × Text) (h : IsReadName entry.1) :
    ∃ form : Form, form.text = renderPair entry ∧ form.pair = (entry.1, escapeQuotes entry.2) ∧
      ∀ assignment ∈ form.assignment, ∃ quoted, assignment.value = .quoted quoted := by
  obtain ⟨name, value⟩ := entry
  by_cases hvalue : value = []
  · subst hvalue
    refine ⟨⟨.space, name, none, Gap.space_ne_nil, h.1, h.2⟩, ?_, rfl, by simp⟩
    exact List.append_nil (' ' :: name)
  · let quoted : Quoted := ⟨'"', escapeQuotes value, .inl rfl, not_mem_escapeQuotes value⟩
    refine ⟨⟨.space, name, some ⟨.none, .none, .quoted quoted⟩, Gap.space_ne_nil, h.1, h.2⟩, ?_,
      rfl, by simp⟩
    rw [renderPair_of_ne_nil name hvalue]
    show ' ' :: name ++ '=' :: '"' :: (escapeQuotes value ++ ['"']) = _
    simp

theorem exists_forms_eq (attributes : Attributes)
    (h : ∀ name ∈ Dict.keys attributes, IsReadName name) :
    ∃ forms, Form.textOf forms = render attributes ∧ forms.map Form.pair = escaped attributes := by
  induction attributes with
  | nil => exact ⟨[], rfl, rfl⟩
  | cons entry attributes ih =>
    obtain ⟨hentry, hrest⟩ := List.forall_mem_cons.1 h
    obtain ⟨form, htext, hpair, _⟩ := exists_form_eq entry hentry
    obtain ⟨forms, htexts, hpairs⟩ := ih hrest
    refine ⟨form :: forms, ?_, ?_⟩
    · rw [Form.textOf, List.flatMap_cons, htext, ← Form.textOf, htexts, render, render,
        List.flatMap_cons]
    · rw [List.map_cons, hpair, hpairs]
      rfl

namespace IsRead

variable {attributes : Attributes}

/-- Rendered attributes are read with their values as they were rendered. -/
theorem parse_render (h : IsRead attributes) : parse (render attributes) = escaped attributes := by
  obtain ⟨forms, htexts, hpairs⟩ := exists_forms_eq attributes h.isReadName
  have hread := Form.parse_textOf_append forms .none
  have hnodup : (Dict.keys (escaped attributes)).Nodup := by
    rw [keys_escaped]
    exact h.nodup
  rwa [Gap.none, List.append_nil, htexts, hpairs, Dict.settled_of_nodup hnodup] at hread

end IsRead

theorem renderPair_escapeQuotes (name value : Text) :
    renderPair (name, escapeQuotes value) = renderPair (name, value) := by
  by_cases hvalue : value = []
  · rw [hvalue]
    rfl
  · rw [renderPair_of_ne_nil name hvalue, renderPair_of_ne_nil name (escapeQuotes_ne_nil hvalue),
      escapeQuotes_escapeQuotes]

/-- References for double quotes are not rendered once more. -/
theorem render_escaped (attributes : Attributes) :
    render (escaped attributes) = render attributes := by
  rw [render, escaped, List.flatMap_map, render]
  exact List.flatMap_congr fun entry _ ↦ renderPair_escapeQuotes entry.1 entry.2

/-- Attributes of any text are rendered so that they are read again with the same names in the same
order, every double quote of a value as a reference. What was rendered, read and rendered again is
the same text. -/
theorem parse_render_parse (text : Text) :
    parse (render (parse text)) = escaped (parse text) ∧
      render (parse (render (parse text))) = render (parse text) := by
  have hread := (isRead_parse text).parse_render
  exact ⟨hread, by rw [hread, render_escaped]⟩

example : render (parse "b=1 e='x\"'/b =c>> /d='\"".toList) =
    " b=\"c\" e=\"x&quot;\" >> d".toList := by
  cbv

end ComponentMarkup.Attributes
