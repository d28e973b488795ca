import ComponentMarkup.Proofs.Template.Meaning

/-!
# Where a binding ends

The expression of a binding ends at the first closing braces behind its opening braces, and
contains none, unless nothing but white space stands between the opening braces and the first
closing ones. An expression is not empty, so it is then read on to the next closing braces, if
there are any, and the text between the two belongs to it. What follows the braces that a binding
ends at is cut into parts on its own.
-/

namespace ComponentMarkup.Template

open Text

namespace Binding

/-- The braces that a binding begins with. -/
def opening (binding : Binding) : Text := if binding.isEscaped then openDouble else openTriple

/-- The braces that a binding ends with. -/
def closing (binding : Binding) : Text := if binding.isEscaped then closeDouble else closeTriple

end Binding

/-- The first closing braces of a text: what stands before them, and what follows them. -/
structure IsFirst (closing text before behind : Text) : Prop where
  text_eq : text = before ++ (closing ++ behind)
  isPrefix {front after : Text} (h : text = front ++ (closing ++ after)) : before <+: front

/-- What a binding's opening braces are followed by: white space, the expression, white space, the
closing braces and what is left. -/
def Binding.Encloses (binding : Binding) (inside behind : Text) : Prop :=
  ∃ before after : Text, (∀ c ∈ before, isBlank c) ∧ (∀ c ∈ after, isBlank c) ∧
    inside = before ++ (binding.expression ++ (after ++ (binding.closing ++ behind)))

/-- Only white space stands before the first closing braces, and closing braces follow again. -/
def RunsOn (closing inside : Text) : Prop :=
  closing <+: inside.dropWhile isBlank ∧ closing <:+: (inside.dropWhile isBlank).tail

/-- The first parts of a template, and the text behind them. -/
inductive Cuts : Text → List Part → Text → Prop where
  | nil (content : Text) : Cuts content [] content
  | copied {c : Char} {rest left : Text} {front : List Part} (none : binding? (c :: rest) = none)
      (cuts : Cuts rest front left) : Cuts (c :: rest) (.copied c :: front) left
  | bound {content rest left : Text} {binding : Binding} {front : List Part}
      (found : binding? content = some (binding, rest)) (cuts : Cuts rest front left) :
      Cuts content (.bound binding :: front) left

/-! ## The first closing braces -/

section IsFirst

variable {closing text before behind : Text}

theorem isFirst_nil (closing behind : Text) : IsFirst closing (closing ++ behind) [] behind where
  text_eq := rfl
  isPrefix _ := List.nil_prefix

namespace IsFirst

theorem cons {c : Char} (h : IsFirst closing text before behind) (hnot : ¬ closing <+: c :: text) :
    IsFirst closing (c :: text) (c :: before) behind where
  text_eq := by rw [h.text_eq, List.cons_append]
  isPrefix {front after} hfront := by
    cases front with
    | nil => exact absurd ⟨after, hfront.symm⟩ hnot
    | cons d front =>
      rw [List.cons_append, List.cons.injEq] at hfront
      rw [hfront.1, List.cons_prefix_cons]
      exact ⟨rfl, h.isPrefix hfront.2⟩

/-- White space in front does not open closing braces. -/
theorem blanks_append {blanks : Text} (h : IsFirst closing text before behind)
    (hclosing : Surface.IsClosing closing) (hblanks : ∀ c ∈ blanks, isBlank c) :
    IsFirst closing (blanks ++ text) (blanks ++ before) behind := by
  induction blanks with
  | nil => exact h
  | cons c blanks ih =>
    obtain ⟨more, rfl⟩ := hclosing
    apply (ih fun d hd ↦ hblanks d (List.mem_cons_of_mem c hd)).cons
    intro hprefix
    have hc := (List.cons_prefix_cons.1 hprefix).1
    exact absurd (hblanks c List.mem_cons_self) (by rw [← hc]; decide)

/-- No closing braces stand before the first ones. -/
theorem not_isInfix (h : IsFirst closing text before behind) (hne : closing ≠ []) :
    ¬ closing <:+: before := by
  rintro ⟨front, after, hbefore⟩
  have htext : text = front ++ (closing ++ (after ++ (closing ++ behind))) := by
    rw [h.text_eq, ← hbefore]
    simp
  have hlength := (h.isPrefix htext).length_le
  have hpos := List.length_pos_of_ne_nil hne
  rw [← hbefore, List.length_append, List.length_append] at hlength
  omega

theorem behind_unique {before' behind' : Text} (h : IsFirst closing text before behind)
    (h' : IsFirst closing text before' behind') : behind = behind' := by
  have hlength := (h.isPrefix h'.text_eq).length_le
  have hlength' := (h'.isPrefix h.text_eq).length_le
  have happend := h.text_eq.symm.trans h'.text_eq
  obtain ⟨-, hbraces⟩ := List.append_inj happend (by omega)
  exact List.append_cancel_left hbraces

end IsFirst

end IsFirst

/-! ## Reading an expression -/

variable {closing : Text}

theorem Surface.IsClosing.ne_nil (hclosing : Surface.IsClosing closing) : closing ≠ [] := by
  obtain ⟨more, rfl⟩ := hclosing
  exact List.cons_ne_nil _ _

/-- Closing braces do not begin with white space. -/
theorem Surface.IsClosing.dropWhile_append (hclosing : Surface.IsClosing closing) (rest : Text) :
    (closing ++ rest).dropWhile isBlank = closing ++ rest := by
  obtain ⟨more, rfl⟩ := hclosing
  exact List.dropWhile_cons_of_neg (by decide)

theorem Surface.IsClosing.not_isPrefix (hclosing : Surface.IsClosing closing) {text : Text}
    (h : after? closing (text.dropWhile isBlank) = none) : ¬ closing <+: text := by
  rintro ⟨rest, rfl⟩
  rw [hclosing.dropWhile_append, after?_eq_some_iff.2 rfl] at h
  simp at h

/-- What is read stands before white space and the first closing braces. -/
theorem exists_of_upTo? (hclosing : Surface.IsClosing closing) {text before behind : Text}
    (h : upTo? closing text = some (before, behind)) :
    ∃ after : Text, (∀ c ∈ after, isBlank c) ∧
      IsFirst closing text (before ++ after) behind := by
  induction text generalizing before with
  | nil => simp [upTo?] at h
  | cons c text ih =>
    rw [upTo?] at h
    cases hafter : after? closing ((c :: text).dropWhile isBlank) with
    | some rest =>
      obtain ⟨rfl, rfl⟩ : [] = before ∧ rest = behind := by simpa [hafter] using h
      have hblanks : ∀ d ∈ (c :: text).takeWhile isBlank, isBlank d :=
        fun d hd ↦ (List.mem_takeWhile_imp hd)
      refine ⟨(c :: text).takeWhile isBlank, hblanks, ?_⟩
      have hfirst := (isFirst_nil closing rest).blanks_append hclosing hblanks
      rw [← after?_eq_some_iff.1 hafter, List.takeWhile_append_dropWhile, List.append_nil] at hfirst
      exact hfirst
    | none =>
      obtain ⟨before', hread, rfl⟩ :
          ∃ before', upTo? closing text = some (before', behind) ∧ c :: before' = before := by
        simpa [hafter] using h
      obtain ⟨after, hblanks, hfirst⟩ := ih hread
      exact ⟨after, hblanks, hfirst.cons (hclosing.not_isPrefix hafter)⟩

/-- Where there are closing braces, something is read. -/
theorem isSome_upTo? (hclosing : Surface.IsClosing closing) {text : Text}
    (h : closing <:+: text) : (upTo? closing text).isSome := by
  induction text with
  | nil => exact absurd (List.infix_nil.1 h) hclosing.ne_nil
  | cons c text ih =>
    rw [upTo?]
    cases hafter : after? closing ((c :: text).dropWhile isBlank) with
    | some rest => rfl
    | none =>
      have htext := (List.infix_cons_iff.1 h).resolve_left (hclosing.not_isPrefix hafter)
      simpa using ih htext

section Expression

variable {inside expression behind : Text}

/-- An expression begins behind the white space and is read to the next closing braces; where
there are none, the last white space in front of the closing braces is the expression. -/
theorem expression?_cases (h : expression? closing inside = some (expression, behind)) :
    (∃ c body before, inside.dropWhile isBlank = c :: body ∧
      upTo? closing body = some (before, behind) ∧ expression = c :: before) ∨
    (∃ blank, (inside.takeWhile isBlank).getLast? = some blank ∧ expression = [blank] ∧
      inside.dropWhile isBlank = closing ++ behind ∧
      upTo? closing (inside.dropWhile isBlank).tail = none) := by
  simp only [expression?] at h
  split at h
  · rename_i found hread
    left
    cases hbody : inside.dropWhile isBlank with
    | nil => simp [hbody] at hread
    | cons c body =>
      obtain ⟨before, hread, rfl⟩ :
          ∃ before, upTo? closing body = some (before, behind) ∧ c :: before = expression := by
        simpa [hbody, Option.some.inj h] using hread
      exact ⟨c, body, before, rfl, hread, rfl⟩
  · rename_i hread
    right
    have hnone : upTo? closing (inside.dropWhile isBlank).tail = none := by
      cases hbody : inside.dropWhile isBlank with
      | nil => rfl
      | cons c body => simpa [hbody] using hread
    split at h
    · rename_i blank after hblank hafter
      obtain ⟨rfl, rfl⟩ : [blank] = expression ∧ after = behind := by simpa using h
      exact ⟨blank, hblank, rfl, after?_eq_some_iff.1 hafter, hnone⟩
    · simp at h

/-- The expression stands between white space, and the braces behind it are the first ones exactly
if the white space in front of it is not followed by such braces and more of them. -/
theorem exists_of_expression? (hclosing : Surface.IsClosing closing)
    (h : expression? closing inside = some (expression, behind)) :
    ∃ before after : Text, (∀ c ∈ before, isBlank c) ∧ (∀ c ∈ after, isBlank c) ∧
      inside = before ++ (expression ++ (after ++ (closing ++ behind))) ∧
      ((¬ closing <:+: expression ∧ ∃ inner, IsFirst closing inside inner behind) ↔
        ¬ RunsOn closing inside) := by
  have hblanks : ∀ c ∈ inside.takeWhile isBlank, isBlank c := fun c hc ↦ List.mem_takeWhile_imp hc
  have hinside := List.takeWhile_append_dropWhile (p := isBlank) (l := inside)
  obtain ⟨c, body, before, hbody, hread, rfl⟩ | ⟨blank, hblank, rfl, hbody, hnone⟩ :=
    expression?_cases h
  · obtain ⟨after, hafter, hfirst⟩ := exists_of_upTo? hclosing hread
    rw [hbody] at hinside
    refine ⟨inside.takeWhile isBlank, after, hblanks, hafter, ?_, ?_, ?_⟩
    · rw [hfirst.text_eq] at hinside
      exact hinside.symm.trans (by simp)
    · rintro ⟨-, inner, hinner⟩ ⟨⟨rest, hrest⟩, -⟩
      rw [hbody] at hrest
      have hhollow := (isFirst_nil closing rest).blanks_append hclosing hblanks
      rw [hrest, hinside] at hhollow
      obtain rfl := hinner.behind_unique hhollow
      have hlength := congrArg List.length hrest
      rw [hfirst.text_eq] at hlength
      simp at hlength
      omega
    · intro hnot
      have hbraces : closing <:+: body := ⟨before ++ after, behind, by simp [hfirst.text_eq]⟩
      have hfront : ¬ closing <+: c :: body :=
        fun hfront ↦ hnot ⟨by rwa [hbody], by rwa [hbody]⟩
      have hwhole := (hfirst.cons hfront).blanks_append hclosing hblanks
      rw [hinside] at hwhole
      refine ⟨fun hin ↦ hwhole.not_isInfix hclosing.ne_nil (hin.trans ?_), _, hwhole⟩
      exact ⟨inside.takeWhile isBlank, after, by simp⟩
  · have hlast := List.dropLast_append_getLast? blank hblank
    have hwhole := (isFirst_nil closing behind).blanks_append hclosing hblanks
    rw [hbody] at hinside
    rw [hinside, List.append_nil] at hwhole
    refine ⟨(inside.takeWhile isBlank).dropLast, [], ?_, by simp, ?_, ?_, ?_⟩
    · exact fun c hc ↦ hblanks c (List.dropLast_subset _ hc)
    · rw [List.nil_append, ← List.append_assoc, hlast, hinside]
    · rintro - ⟨-, hagain⟩
      have hsome := isSome_upTo? hclosing hagain
      rw [hnone] at hsome
      exact Bool.noConfusion hsome
    · intro _
      refine ⟨fun hin ↦ hwhole.not_isInfix hclosing.ne_nil (hin.trans ?_), _, hwhole⟩
      exact ⟨(inside.takeWhile isBlank).dropLast, [], by rw [List.append_nil, hlast]⟩

end Expression

/-! ## Bindings of a template -/

section Parts

variable {binding : Binding} {behind : Text}

/-- What a binding has read behind its opening braces. -/
theorem exists_of_bindingWith? {isEscaped : Bool} {opening text : Text}
    (h : bindingWith? isEscaped opening closing text = some (binding, behind)) :
    binding.isEscaped = isEscaped ∧
      ∃ inside, text = opening ++ inside ∧
        expression? closing inside = some (binding.expression, behind) := by
  simp only [bindingWith?, Option.bind_eq_some_iff, Option.map_eq_some_iff, Prod.exists,
    Prod.mk.injEq] at h
  obtain ⟨inside, hinside, expression, _, hread, rfl, rfl⟩ := h
  exact ⟨rfl, inside, after?_eq_some_iff.1 hinside, hread⟩

/-- A text that begins with a binding begins with its opening braces, and behind them the
expression is read up to its closing braces. -/
theorem exists_of_binding? {text : Text} (h : binding? text = some (binding, behind)) :
    ∃ inside, text = binding.opening ++ inside ∧
      expression? binding.closing inside = some (binding.expression, behind) := by
  rw [binding?] at h
  split at h
  · rename_i found hfound
    obtain ⟨hescaped, hinside⟩ := exists_of_bindingWith? (hfound.trans h)
    rwa [Binding.opening, Binding.closing, hescaped]
  · obtain ⟨hescaped, hinside⟩ := exists_of_bindingWith? h
    rwa [Binding.opening, Binding.closing, hescaped]

theorem Binding.isClosing (binding : Binding) : Surface.IsClosing binding.closing := by
  rw [Binding.closing]
  split
  · exact Surface.isClosing_double
  · exact Surface.isClosing_triple

theorem exists_cuts {content : Text} {front rest : List Part}
    (h : parts content = front ++ rest) :
    ∃ left, Cuts content front left ∧ parts left = rest := by
  induction front generalizing content with
  | nil => exact ⟨content, .nil content, h⟩
  | cons part front ih =>
    cases content with
    | nil => simp [parts] at h
    | cons c content =>
      rw [parts] at h
      split at h
      · rename_i binding after hfound
        rw [List.cons_append, List.cons.injEq] at h
        obtain ⟨left, hcuts, hleft⟩ := ih h.2
        exact ⟨left, h.1 ▸ .bound hfound hcuts, hleft⟩
      · rename_i hnone
        rw [List.cons_append, List.cons.injEq] at h
        obtain ⟨left, hcuts, hleft⟩ := ih h.2
        exact ⟨left, h.1 ▸ .copied hnone hcuts, hleft⟩

theorem binding?_of_parts_eq {text : Text} {rest : List Part}
    (h : parts text = .bound binding :: rest) :
    ∃ behind, binding? text = some (binding, behind) ∧ parts behind = rest := by
  cases text with
  | nil => simp [parts] at h
  | cons c text =>
    rw [parts] at h
    split at h
    · rename_i found behind hfound
      obtain ⟨rfl, rfl⟩ : found = binding ∧ parts behind = rest := by simpa using h
      exact ⟨behind, hfound, rfl⟩
    · simp at h

/-- Every binding of a template stands between its braces, and what follows them is cut into the
parts behind the binding. Its expression holds no closing braces and ends at the first ones behind
its opening braces, exactly if it is not a blank one that runs on to the next closing braces. -/
theorem endsAtFirst_iff_not_runsOn {content : Text} {front rest : List Part}
    (h : parts content = front ++ .bound binding :: rest) :
    ∃ inside behind, Cuts content front (binding.opening ++ inside) ∧
      binding.Encloses inside behind ∧ parts behind = rest ∧
      ((¬ binding.closing <:+: binding.expression ∧
          ∃ inner, IsFirst binding.closing inside inner behind) ↔
        ¬ RunsOn binding.closing inside) := by
  obtain ⟨left, hcuts, hleft⟩ := exists_cuts h
  obtain ⟨behind, hfound, hrest⟩ := binding?_of_parts_eq hleft
  obtain ⟨inside, rfl, hread⟩ := exists_of_binding? hfound
  obtain ⟨before, after, hbefore, hafter, hinside, hends⟩ :=
    exists_of_expression? binding.isClosing hread
  exact ⟨inside, behind, hcuts, ⟨before, after, hbefore, hafter, hinside⟩, hrest, hends⟩

theorem endsAtFirst_iff_not_runsOn_second :
    parts "\x7b\x7b a \x7d\x7d-\x7b\x7b\x7bb\x7d\x7d\x7d.".toList =
        [.bound ⟨true, ['a']⟩, .copied '-'] ++ .bound ⟨false, ['b']⟩ :: [.copied '.'] ∧
      ∃ inside behind,
        Cuts "\x7b\x7b a \x7d\x7d-\x7b\x7b\x7bb\x7d\x7d\x7d.".toList
          [.bound ⟨true, ['a']⟩, .copied '-'] (openTriple ++ inside) ∧
        Binding.Encloses ⟨false, ['b']⟩ inside behind ∧ parts behind = [.copied '.'] ∧
        ((¬ closeTriple <:+: ['b'] ∧ ∃ inner, IsFirst closeTriple inside inner behind) ↔
          ¬ RunsOn closeTriple inside) := by
  have hparts : parts "\x7b\x7b a \x7d\x7d-\x7b\x7b\x7bb\x7d\x7d\x7d.".toList =
      [.bound ⟨true, ['a']⟩, .copied '-'] ++ .bound ⟨false, ['b']⟩ :: [.copied '.'] := by
    decide +kernel
  exact ⟨hparts, endsAtFirst_iff_not_runsOn hparts⟩

/-- An empty binding in front of another one. -/
def hollowTemplate : Text := "\x7b\x7b \x7d\x7d-\x7b\x7b b \x7d\x7d".toList

/-- The two bindings are read as one, which shows nothing. -/
theorem parts_hollowTemplate :
    parts hollowTemplate = [.bound ⟨true, "\x7d\x7d-\x7b\x7b b".toList⟩] ∧
      closeDouble <:+: "\x7d\x7d-\x7b\x7b b".toList ∧
      (render ⟨[("b".toList, .string ['B'])], [], [], [], []⟩ ⟨[], hollowTemplate, [], false⟩).1 =
        [] := by
  decide +kernel

end Parts

end ComponentMarkup.Template
