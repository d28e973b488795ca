import ComponentMarkup.Proofs.Stylesheet.Written

/-!
# The braces of a style sheet

Preludes hold no braces but those inside parentheses, and the blocks behind them hold balanced ones.
So the braces of a text without parentheses are balanced outside its strings wherever the text is
read as a style sheet, and a text whose braces are not is refused.
-/

namespace ComponentMarkup.Stylesheet

/-- Behind `depth` opening braces, no front closes more braces than are open, and none is left open
in the end. Braces inside strings do not count. -/
structure IsBalanced (depth : Nat) (input : List Lexeme) : Prop where
  front_le : ∀ front, front <+: input →
    front.count (.plain '\x7d') ≤ depth + front.count (.plain '\x7b')
  total_eq : input.count (.plain '\x7d') = depth + input.count (.plain '\x7b')

/-- A brace outside strings. -/
def Lexeme.isBrace (lexeme : Lexeme) : Bool := lexeme = .plain '\x7b' || lexeme = .plain '\x7d'

/-! ## Balanced stretches -/

section Balanced

variable {depth : Nat} {a b body rest input : List Lexeme}

theorem isBalanced_nil : IsBalanced 0 [] where
  front_le front h := by simp [List.prefix_nil.1 h]
  total_eq := rfl

/-- A lexeme leads from one depth to the next. -/
theorem IsBalanced.step {next : Nat} {lexeme : Lexeme} (h : IsBalanced next rest)
    (hnext : next + [lexeme].count (.plain '\x7d') = depth + [lexeme].count (.plain '\x7b')) :
    IsBalanced depth (lexeme :: rest) where
  front_le front hfront := by
    rcases List.prefix_cons_iff.1 hfront with rfl | ⟨more, rfl, hmore⟩
    · simp
    · have hle := h.front_le more hmore
      rw [← List.singleton_append, List.count_append, List.count_append]
      omega
  total_eq := by
    have htotal := h.total_eq
    rw [← List.singleton_append, List.count_append, List.count_append]
    omega

theorem IsBalanced.opening (h : IsBalanced (depth + 1) rest) :
    IsBalanced depth (.plain '\x7b' :: rest) := h.step rfl

theorem IsBalanced.closing (h : IsBalanced depth rest) :
    IsBalanced (depth + 1) (.plain '\x7d' :: rest) := h.step rfl

theorem IsBalanced.cons (h : IsBalanced depth rest) {lexeme : Lexeme}
    (hlexeme : lexeme.isBrace = false) : IsBalanced depth (lexeme :: rest) := by
  simp only [Lexeme.isBrace, Bool.or_eq_false_iff, decide_eq_false_iff_not] at hlexeme
  apply h.step
  rw [List.count_singleton, List.count_singleton]
  simp [hlexeme]

/-- A stretch without braces changes no balance. -/
theorem IsBalanced.append_left (h : IsBalanced depth rest)
    (hstretch : ∀ lexeme ∈ a, lexeme.isBrace = false) : IsBalanced depth (a ++ rest) := by
  induction a with
  | nil => exact h
  | cons lexeme a ih =>
    obtain ⟨hlexeme, ha⟩ := List.forall_mem_cons.1 hstretch
    exact (ih ha).cons hlexeme

/-- Without braces a stretch is balanced. -/
theorem isBalanced_of_forall (h : ∀ lexeme ∈ input, lexeme.isBrace = false) :
    IsBalanced 0 input := by
  have hbalanced := isBalanced_nil.append_left h
  rwa [List.append_nil] at hbalanced

theorem isBrace_of_isBlank {lexeme : Lexeme} (h : lexeme.isBlank = true) :
    lexeme.isBrace = false := by
  cases lexeme with
  | quoted text => rfl
  | plain c =>
    have hopen : c ≠ '\x7b' := ne_of_isBlank h rfl
    have hclose : c ≠ '\x7d' := ne_of_isBlank h rfl
    simp [Lexeme.isBrace, hopen, hclose]

/-- A walk inside a brace closes what it opens and the braces that were open before. -/
theorem IsBalanced.append_within {inside : Nat} (h : IsBalanced depth rest)
    (hwalk : walk? (fun _ ↦ some .outside) (.within .brace inside) body =
      some (.within .brace 0)) : IsBalanced (depth + inside) (body ++ rest) := by
  induction body generalizing inside with
  | nil =>
    obtain rfl : inside = 0 := by simpa [walk?] using hwalk
    exact h
  | cons lexeme body ih =>
    cases lexeme with
    | quoted text => exact (ih hwalk).cons rfl
    | plain c =>
      by_cases hquote : isQuote c = true
      · simp [walk?, Place.next?, hquote] at hwalk
      by_cases hclose : c = '\x7d'
      · rw [hclose] at hwalk ⊢
        cases inside with
        | zero =>
          rw [walk?_closing rfl] at hwalk
          exact absurd hwalk (walk?_outside_ne .brace 0 body)
        | succ inside => exact (ih hwalk).closing
      by_cases hopen : c = '\x7b'
      · rw [hopen] at hwalk ⊢
        have hbody : walk? (fun _ ↦ some .outside) (.within .brace (inside + 1)) body =
            some (.within .brace 0) := hwalk
        exact (ih hbody).opening
      · have hrest : walk? (fun _ ↦ some .outside) (.within .brace inside) body =
            some (.within .brace 0) := by
          simpa [walk?, Place.next?, hquote, Enclosure.closes, Enclosure.opens, hclose, hopen]
            using hwalk
        exact (ih hrest).cons (by simp [Lexeme.isBrace, hclose, hopen])

/-- Outside parentheses a prelude holds no braces. -/
theorem IsHead.isBrace_eq_false {head : List Lexeme} (h : IsHead head)
    (hparenthesis : .plain '(' ∉ head) : ∀ lexeme ∈ head, lexeme.isBrace = false := by
  induction head with
  | nil => exact List.forall_mem_nil _
  | cons lexeme head ih =>
    obtain ⟨hfirst, hmore⟩ : .plain '(' ≠ lexeme ∧ .plain '(' ∉ head := by
      simpa using hparenthesis
    cases lexeme with
    | quoted text => exact List.forall_mem_cons.2 ⟨rfl, ih h hmore⟩
    | plain c =>
      obtain ⟨next, hnext, hrest⟩ := Option.bind_eq_some_iff.1 h
      have hopen : c ≠ '(' := by
        rintro rfl
        exact hfirst rfl
      by_cases hends : endsPrelude c = true
      · by_cases hquote : isQuote c = true <;>
          simp [Place.next?, hquote, headPlace?, hopen, hends] at hnext
      · have hquote : isQuote c = false := by simp_all [endsPrelude]
        have hplace : next = .outside := by
          simpa [Place.next?, hquote, headPlace?, hopen, hends] using hnext.symm
        have hbrace : (Lexeme.plain c).isBrace = false := by simp_all [endsPrelude, Lexeme.isBrace]
        rw [hplace] at hrest
        exact List.forall_mem_cons.2 ⟨hbrace, ih hrest hmore⟩

/-- White space and a prelude in front of a stretch change no balance. -/
theorem IsBalanced.append_head (h : IsBalanced depth rest) {gap head : List Lexeme}
    (hgap : ∀ lexeme ∈ gap, lexeme.isGap = true) (hhead : OpensItem head)
    (hparenthesis : .plain '(' ∉ head) : IsBalanced depth (gap ++ (head ++ rest)) := by
  have hblanks : ∀ lexeme ∈ gap, lexeme.isBrace = false :=
    fun lexeme hlexeme ↦ isBrace_of_isBlank (isBlank_of_isGap (hgap lexeme hlexeme))
  exact (h.append_left (hhead.isHead.isBrace_eq_false hparenthesis)).append_left hblanks

end Balanced

/-! ## What has been read -/

/-- Items are spelled with balanced braces, at any depth of groups. -/
theorem Spelled.isBalanced_append {inGroup : Bool} {items : List Item} {input : List Lexeme}
    (h : Spelled inGroup items input) (hparenthesis : .plain '(' ∉ input) {depth : Nat}
    {behind : List Lexeme} (hbehind : IsBalanced depth behind) :
    IsBalanced depth (input ++ behind) := by
  induction h generalizing depth behind with
  | nil hgap =>
    exact hbehind.append_left fun l hl ↦ isBrace_of_isBlank (isBlank_of_isGap (hgap l hl))
  | statement hgap hhead hrest ih =>
    simp only [List.mem_append, List.mem_cons, not_or] at hparenthesis
    obtain ⟨⟨-, hopens⟩, -, hmore⟩ := hparenthesis
    simp only [List.append_assoc, List.cons_append]
    exact ((ih hmore hbehind).cons rfl).append_head hgap hhead hopens
  | block hgap hhead hkind hbody hrest ih =>
    simp only [List.mem_append, List.mem_cons, not_or] at hparenthesis
    obtain ⟨⟨⟨-, hopens⟩, -, -⟩, -, hmore⟩ := hparenthesis
    simp only [List.append_assoc, List.cons_append]
    exact ((ih hmore hbehind).closing.append_within hbody).opening.append_head hgap hhead hopens
  | group hgap hhead hkind hbody hrest ihInside ih =>
    simp only [List.mem_append, List.mem_cons, not_or] at hparenthesis
    obtain ⟨⟨⟨-, hopens⟩, -, hinside⟩, -, hmore⟩ := hparenthesis
    simp only [List.append_assoc, List.cons_append]
    exact (ihInside hinside (ih hmore hbehind).closing).opening.append_head hgap hhead hopens
  | loose hgap hhead =>
    simp only [List.mem_append, not_or] at hparenthesis
    rw [List.append_assoc]
    exact hbehind.append_head hgap hhead hparenthesis.2

/-- What is read as a style sheet has balanced braces, unless it has parentheses. -/
theorem isBalanced_of_read {text : Text} {sheet : Stylesheet} (h : read text = .ok sheet)
    (hparenthesis : .plain '(' ∉ lexemes (stripComments text)) :
    IsBalanced 0 (lexemes (stripComments text)) := by
  let input := lexemes (stripComments text)
  let left := (readItems false input).1.2
  have hblank : ∀ c ∈ textOf left, Text.isBlank c = true := (readItems_of_read h).2
  have hleft : ∀ lexeme ∈ dropLayout left, lexeme.isBrace = false := by
    intro lexeme hlexeme
    cases lexeme with
    | quoted text => rfl
    | plain c =>
      apply isBrace_of_isBlank
      exact isBlank_of_mem_dropLayout hblank hlexeme c (List.mem_singleton_self c)
  obtain ⟨used, hused, hspelled⟩ := spelled_of_readItems false input
  have hopens : .plain '(' ∉ used := by
    intro hmem
    apply hparenthesis
    rw [show lexemes (stripComments text) = used ++ dropLayout left from hused]
    exact List.mem_append_left _ hmem
  have hbalanced : IsBalanced 0 (used ++ dropLayout left) :=
    hspelled.isBalanced_append hopens (isBalanced_of_forall hleft)
  rwa [← hused] at hbalanced

/-- Unbalanced braces are always refused: a text without parentheses is read as a style sheet only
if the braces of what is left without its comments are balanced outside strings. -/
theorem isBalanced_and_refused {text : Text} (hparenthesis : '(' ∉ text) :
    (∀ sheet, read text = .ok sheet → IsBalanced 0 (lexemes (stripComments text))) ∧
      (¬ IsBalanced 0 (lexemes (stripComments text)) → ∃ error, read text = .error error) := by
  have hopens : .plain '(' ∉ lexemes (stripComments text) := by
    intro hmem
    rcases mem_of_mem_stripComments (mem_of_plain_mem hmem) with hspace | htext
    · simp at hspace
    · exact hparenthesis htext
  refine ⟨fun sheet h ↦ isBalanced_of_read h hopens, fun hunbalanced ↦ ?_⟩
  cases h : read text with
  | error error => exact ⟨error, rfl⟩
  | ok sheet => exact absurd (isBalanced_of_read h hopens) hunbalanced

/-- A group that nothing closes: the brace inside the string closes nothing. -/
def unclosedText : Text :=
  ['@', 'm', 'e', 'd', 'i', 'a', '\x7b', 'a', '\x7b', '\x7d', '"', '\x7d', '"']

/-- A sheet with a group is balanced, and a group that nothing closes is refused. -/
theorem isBalanced_and_refused_framedText :
    '(' ∉ framedText ∧ read framedText = .ok framedSheet ∧
      IsBalanced 0 (lexemes (stripComments framedText)) ∧
      '(' ∉ unclosedText ∧ ¬ IsBalanced 0 (lexemes (stripComments unclosedText)) ∧
      ∃ error, read unclosedText = .error error := by
  have hframed : '(' ∉ framedText := by with_unfolding_all decide
  have hunclosed : '(' ∉ unclosedText := by decide
  have hlexemes : lexemes (stripComments unclosedText) =
      "@media\x7ba\x7b\x7d".toList.map .plain ++ [.quoted ['"', '\x7d', '"']] := by
    with_unfolding_all rfl
  have hunbalanced : ¬ IsBalanced 0 (lexemes (stripComments unclosedText)) := by
    intro h
    have htotal := h.total_eq
    rw [hlexemes] at htotal
    exact absurd htotal (by decide)
  exact ⟨hframed, read_framedText, (isBalanced_and_refused hframed).1 framedSheet read_framedText,
    hunclosed, hunbalanced, (isBalanced_and_refused hunclosed).2 hunbalanced⟩

end ComponentMarkup.Stylesheet
