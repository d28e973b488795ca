import ComponentMarkup.Proofs.Template.Characters

/-!
# Written expressions are split where they are joined

A text carries the splitter from one nesting to another if it passes through without finding a
separator. Texts that carry can be put together, so a written operand, an argument and a call each
leave the splitter where they found it. A separator between such texts is found, and it is the
only kind of place where the splitter splits.
-/

namespace ComponentMarkup.Template

open Text

/-- The splitter comes through a text without splitting it. -/
def Carries (separator : Char) (nesting : Nesting) (text : Text) (next : Nesting) : Prop :=
  ∀ rest, splitFrom separator nesting (text ++ rest) =
    text.foldr consPiece (splitFrom separator next rest)

namespace Carries

variable {separator : Char} {nesting next last : Nesting} {s t : Text}

theorem nil : Carries separator nesting [] nesting := fun _ ↦ rfl

theorem append (hs : Carries separator nesting s next) (ht : Carries separator next t last) :
    Carries separator nesting (s ++ t) last := by
  intro rest
  rw [List.append_assoc, hs, ht, List.foldr_append]

theorem cons {c : Char} (hc : ¬(c = separator ∧ nesting = .top))
    (ht : Carries separator (nesting.next c) t last) :
    Carries separator nesting (c :: t) last := by
  intro rest
  have hif : (decide (c = separator) && decide (nesting = .top)) = false := by
    rw [Bool.and_eq_false_iff, decide_eq_false_iff_not, decide_eq_false_iff_not]
    tauto
  rw [List.cons_append, splitFrom, hif, if_neg Bool.false_ne_true, ht, List.foldr_cons]

/-- Characters that change nothing are passed. -/
theorem of_forall (h : ∀ c ∈ t, nesting.next c = nesting ∧ ¬(c = separator ∧ nesting = .top)) :
    Carries separator nesting t nesting := by
  induction t with
  | nil => exact nil
  | cons c t ih =>
    have hc := h c List.mem_cons_self
    apply cons hc.2
    rw [hc.1]
    exact ih fun d hd ↦ h d (List.mem_cons_of_mem c hd)

end Carries

/-! ## Pieces -/

theorem foldr_consPiece (text piece : Text) (pieces : List Text) :
    text.foldr consPiece (piece :: pieces) = (text ++ piece) :: pieces := by
  induction text with
  | nil => rfl
  | cons c text ih => rw [List.foldr_cons, ih, consPiece, List.cons_append]

section Pieces

variable {separator : Char} {text : Text} (h : Carries separator .top text .top)

include h

theorem Carries.splitFrom_eq : splitFrom separator .top text = [text] := by
  have hsplit := h []
  rwa [List.append_nil, splitFrom, foldr_consPiece, List.append_nil] at hsplit

theorem Carries.splitFrom_append (rest : Text) :
    splitFrom separator .top (text ++ separator :: rest) =
      text :: splitFrom separator .top rest := by
  rw [h, splitFrom, if_pos (by simp), foldr_consPiece, List.append_nil]

end Pieces

/-- A list of pieces with separators between them is split into the pieces. -/
theorem splitFrom_joinWith {separator : Char} {piece : Text} {pieces : List Text}
    (h : ∀ text ∈ piece :: pieces, Carries separator .top text .top) :
    splitFrom separator .top (joinWith [separator] (piece :: pieces)) = piece :: pieces := by
  induction pieces generalizing piece with
  | nil =>
    rw [joinWith, List.intercalate_singleton]
    exact (h piece List.mem_cons_self).splitFrom_eq
  | cons next pieces ih =>
    have hjoin : joinWith [separator] (piece :: next :: pieces) =
        piece ++ separator :: joinWith [separator] (next :: pieces) := by
      simp [joinWith]
    rw [hjoin, (h piece List.mem_cons_self).splitFrom_append,
      ih fun text htext ↦ h text (List.mem_cons_of_mem piece htext)]

/-- A text that has a piece that is not white space is split into its pieces. -/
theorem splitTopLevel_of_splitFrom {separator : Char} {text piece : Text} {pieces : List Text}
    (h : splitFrom separator .top text = piece :: pieces) (hpiece : isAllBlank piece = false) :
    splitTopLevel separator text = piece :: pieces := by
  unfold splitTopLevel
  rw [h]
  cases pieces with
  | nil => simp [hpiece]
  | cons next pieces => rfl

namespace Surface

/-- The characters outside quotes that mean something to the splitter. -/
def marks : List Char := ['\'', '"', '(', ')', ',', '|']

/-- The comma and the bar separate. -/
def IsSeparator (c : Char) : Prop := c = ',' ∨ c = '|'

section Carries

variable {separator : Char} (hseparator : IsSeparator separator) {depth : Nat}

include hseparator

theorem carries_of_not_mem {text : Text} (h : ∀ c ∈ text, c ∉ marks) :
    Carries separator ⟨none, depth⟩ text ⟨none, depth⟩ := by
  apply Carries.of_forall
  intro c hc
  have hmarks := h c hc
  simp only [marks, List.mem_cons, List.not_mem_nil, or_false, not_or] at hmarks
  obtain ⟨h₁, h₂, h₃, h₄, h₅, h₆⟩ := hmarks
  constructor
  · simp [Nesting.next, h₁, h₂, h₃, h₄]
  · rcases hseparator with rfl | rfl
    · exact fun h ↦ h₅ h.1
    · exact fun h ↦ h₆ h.1

theorem Gap.carries (gap : Gap) : Carries separator ⟨none, depth⟩ gap.text ⟨none, depth⟩ :=
  carries_of_not_mem hseparator fun c hc ↦ not_mem_of_any (by decide) (gap.isBlank c hc)

theorem carries_of_isAtomChar {text : Text} (h : ∀ c ∈ text, isAtomChar c = true) :
    Carries separator ⟨none, depth⟩ text ⟨none, depth⟩ :=
  carries_of_not_mem hseparator fun c hc ↦ not_mem_of_any (by decide) (h c hc)

theorem Quoted.carries (quoted : Quoted) :
    Carries separator ⟨none, depth⟩ quoted.text ⟨none, depth⟩ := by
  have hopen : (⟨none, depth⟩ : Nesting).next quoted.quote = ⟨some quoted.quote, depth⟩ := by
    rcases quoted.isQuote with h | h <;> simp [Nesting.next, h]
  have hclose : (⟨some quoted.quote, depth⟩ : Nesting).next quoted.quote = ⟨none, depth⟩ := by
    simp [Nesting.next]
  have hinside : Carries separator ⟨some quoted.quote, depth⟩ quoted.inside
      ⟨some quoted.quote, depth⟩ := by
    apply Carries.of_forall
    intro c hc
    have hne : c ≠ quoted.quote := ne_of_mem_of_not_mem hc quoted.not_mem
    simp [Nesting.next, Nesting.top, hne]
  have hquote : quoted.quote ≠ separator := by
    rcases hseparator with rfl | rfl <;> rcases quoted.isQuote with h | h <;> rw [h] <;> decide
  apply Carries.cons fun h ↦ hquote h.1
  rw [hopen]
  apply hinside.append
  apply Carries.cons (by simp [Nesting.top])
  rw [hclose]
  exact Carries.nil

theorem Atom.carries (atom : Atom) :
    Carries separator ⟨none, depth⟩ atom.text ⟨none, depth⟩ := by
  by_cases h : ∃ quoted, atom = .quoted quoted
  · obtain ⟨quoted, rfl⟩ := h
    exact quoted.carries hseparator
  · apply carries_of_isAtomChar hseparator
    exact atom.isAtomChar_of_mem fun quoted heq ↦ h ⟨quoted, heq⟩

theorem Argument.carries (argument : Argument) :
    Carries separator ⟨none, depth⟩ argument.text ⟨none, depth⟩ :=
  ((argument.before.carries hseparator).append (argument.atom.carries hseparator)).append
    (argument.after.carries hseparator)

omit hseparator in
/-- Inside parentheses commas separate nothing. -/
theorem carries_joinWith {pieces : List Text}
    (h : ∀ piece ∈ pieces, Carries separator ⟨none, depth + 1⟩ piece ⟨none, depth + 1⟩) :
    Carries separator ⟨none, depth + 1⟩ (joinWith [','] pieces) ⟨none, depth + 1⟩ := by
  induction pieces with
  | nil => exact Carries.nil
  | cons piece pieces ih =>
    have hpiece := h piece List.mem_cons_self
    cases pieces with
    | nil => simpa [joinWith] using hpiece
    | cons next pieces =>
      have hrest := ih fun text htext ↦ h text (List.mem_cons_of_mem piece htext)
      rw [joinWith, List.intercalate_cons_cons, List.append_assoc]
      exact hpiece.append (Carries.cons (by simp [Nesting.top]) hrest)

theorem Call.carries (call : Call) :
    Carries separator ⟨none, depth⟩ call.text ⟨none, depth⟩ := by
  have harguments : Carries separator ⟨none, depth + 1⟩
      (joinWith [','] (call.arguments.map Argument.text)) ⟨none, depth + 1⟩ := by
    apply carries_joinWith
    intro piece hpiece
    obtain ⟨argument, -, rfl⟩ := List.mem_map.1 hpiece
    exact argument.carries hseparator
  have hinside := (call.inner.carries hseparator).append harguments
  have hparentheses : '(' ≠ separator ∧ ')' ≠ separator := by
    rcases hseparator with rfl | rfl <;> decide
  have hname : Carries separator ⟨none, depth⟩ call.name.text ⟨none, depth⟩ :=
    carries_of_isAtomChar hseparator call.name.isAtomChar_of_mem
  have hopen : Carries separator ⟨none, depth⟩ ('(' :: call.inside) ⟨none, depth + 1⟩ :=
    Carries.cons (fun h ↦ hparentheses.1 h.1) hinside
  have hclose : Carries separator ⟨none, depth + 1⟩ [')'] ⟨none, depth⟩ :=
    Carries.cons (fun h ↦ hparentheses.2 h.1) Carries.nil
  exact ((hname.append (call.gap.carries hseparator)).append hopen).append hclose

theorem Head.carries (head : Head) :
    Carries separator ⟨none, depth⟩ head.text ⟨none, depth⟩ := by
  cases head with
  | atom a => exact a.carries hseparator
  | call c => exact c.carries hseparator

theorem Filter.carries (filter : Filter) :
    Carries separator ⟨none, depth⟩ filter.text ⟨none, depth⟩ := by
  cases filter with
  | name n => exact carries_of_isAtomChar hseparator n.isAtomChar_of_mem
  | call c => exact c.carries hseparator

end Carries

/-! ## Arguments and filters -/

/-- The arguments of a call are split at the commas between them. -/
theorem Call.splitTopLevel_inside (call : Call) :
    splitTopLevel ',' call.inside =
      match call.arguments with
      | [] => []
      | first :: others => (call.inner.text ++ first.text) :: others.map Argument.text := by
  have hcomma : IsSeparator ',' := .inl rfl
  unfold Call.inside
  cases call.arguments with
  | nil =>
    have hinner : Carries ',' .top call.inner.text .top := call.inner.carries hcomma
    have hsplit := hinner.splitFrom_eq
    have hblank : isAllBlank call.inner.text = true := List.all_eq_true.2 call.inner.isBlank
    simp [splitTopLevel, joinWith, hsplit, hblank]
  | cons first others =>
    have hjoin : call.inner.text ++ joinWith [','] ((first :: others).map Argument.text) =
        joinWith [','] ((call.inner.text ++ first.text) :: others.map Argument.text) := by
      cases others <;> simp [joinWith]
    rw [hjoin]
    apply splitTopLevel_of_splitFrom
    · apply splitFrom_joinWith
      intro text htext
      rcases List.mem_cons.1 htext with rfl | htext
      · exact (call.inner.carries hcomma).append (first.carries hcomma)
      · obtain ⟨argument, -, rfl⟩ := List.mem_map.1 htext
        exact argument.carries hcomma
    · have hsolid := first.atom.isSolid.isAllBlank (call.inner.text ++ first.before.text)
        first.after.text
      simpa [Argument.text] using hsolid

/-- The pieces of filters behind a text: each has the white space in front of the next bar. -/
def stagePieces (text : Text) : List Stage → List Text
  | [] => [text]
  | stage :: stages =>
    (text ++ stage.before.text) :: stagePieces (stage.after.text ++ stage.filter.text) stages

theorem splitFrom_stages {text : Text} (h : Carries '|' .top text .top) (stages : List Stage) :
    splitFrom '|' .top (text ++ stages.flatMap Stage.text) = stagePieces text stages := by
  have hbar : IsSeparator '|' := .inr rfl
  induction stages generalizing text with
  | nil => simpa [stagePieces] using h.splitFrom_eq
  | cons stage stages ih =>
    have hpiece : Carries '|' .top (text ++ stage.before.text) .top :=
      h.append (stage.before.carries hbar)
    have hnext : Carries '|' .top (stage.after.text ++ stage.filter.text) .top :=
      (stage.after.carries hbar).append (stage.filter.carries hbar)
    have htext : text ++ (stage :: stages).flatMap Stage.text =
        text ++ stage.before.text ++
          '|' :: (stage.after.text ++ stage.filter.text ++ stages.flatMap Stage.text) := by
      simp [Stage.text]
    rw [htext, hpiece.splitFrom_append, ih hnext, stagePieces]

/-- An expression is split into its head and its filters. -/
theorem Expression.splitTopLevel_text (expression : Expression) :
    splitTopLevel '|' expression.text = stagePieces expression.head.text expression.stages := by
  have hsplit : splitFrom '|' .top expression.text =
      stagePieces expression.head.text expression.stages :=
    splitFrom_stages (expression.head.carries (.inr rfl)) expression.stages
  cases hstages : expression.stages with
  | nil =>
    rw [hstages] at hsplit
    apply splitTopLevel_of_splitFrom hsplit
    simpa using expression.head.isSolid.isAllBlank [] []
  | cons stage stages =>
    rw [hstages] at hsplit
    apply splitTopLevel_of_splitFrom hsplit
    simpa using expression.head.isSolid.isAllBlank [] stage.before.text

end Surface

end ComponentMarkup.Template
