import ComponentMarkup.Proofs.Tag.Geometry
import ComponentMarkup.Proofs.Template.Splitting

/-!
# Pieces of a text that is split at the top level

A text that is gone through from the outside has a nesting behind each of its characters. It is cut
at the separators in front of which that nesting is the top, and at no others. So the pieces put
together with the separator are the text again, and as each of them begins at the top, none of them
can be split further.

The pieces are slices of the text. The search keeps the place where the piece in hand begins, in
bytes, and goes one byte past a separator; both ends of every slice fall between characters.
-/

namespace ComponentMarkup.Template

open Text Tag Surface

section Join

variable {separator : Char} {pieces : List Text}

theorem joinWith_cons_of_ne_nil (piece : Text) (h : pieces ≠ []) :
    joinWith [separator] (piece :: pieces) = piece ++ separator :: joinWith [separator] pieces := by
  obtain ⟨next, others, rfl⟩ := List.exists_cons_of_ne_nil h
  rw [joinWith, List.intercalate_cons_cons, List.append_assoc, List.singleton_append]
  rfl

theorem joinWith_consPiece (c : Char) (h : pieces ≠ []) :
    joinWith [separator] (consPiece c pieces) = c :: joinWith [separator] pieces := by
  obtain ⟨piece, others, rfl⟩ := List.exists_cons_of_ne_nil h
  cases others with
  | nil => simp [consPiece, joinWith]
  | cons next others =>
    have hne : next :: others ≠ [] := List.cons_ne_nil next others
    rw [consPiece, joinWith_cons_of_ne_nil _ hne, joinWith_cons_of_ne_nil _ hne, List.cons_append]

theorem consPiece_append (c : Char) (h : pieces ≠ []) (others : List Text) :
    consPiece c (pieces ++ others) = consPiece c pieces ++ others := by
  obtain ⟨piece, rest, rfl⟩ := List.exists_cons_of_ne_nil h
  rfl

end Join

/-! ## Pieces from any nesting -/

/-- The nesting behind a text. -/
def Nesting.behind (nesting : Nesting) (text : Text) : Nesting := text.foldl Nesting.next nesting

theorem Nesting.behind_cons (nesting : Nesting) (c : Char) (text : Text) :
    nesting.behind (c :: text) = (nesting.next c).behind text := rfl

/-- Pieces fall in two where the one part of a text ends and the other begins. -/
def FallApart (separator : Char) (pieces : List Text) (before behind : Text) : Prop :=
  ∃ front back, pieces = front ++ back ∧ front ≠ [] ∧ back ≠ [] ∧
    joinWith [separator] front = before ∧ joinWith [separator] back = behind

section Pieces

variable {separator : Char} {nesting : Nesting}

theorem splitFrom_separator (separator : Char) (rest : Text) :
    splitFrom separator .top (separator :: rest) = [] :: splitFrom separator .top rest := by
  rw [splitFrom, if_pos (by simp)]

theorem splitFrom_of_not_separator {c : Char} (h : ¬(c = separator ∧ nesting = .top)) (rest : Text) :
    splitFrom separator nesting (c :: rest) =
      consPiece c (splitFrom separator (nesting.next c) rest) := by
  rw [splitFrom, if_neg (by simpa using h)]

theorem splitFrom_ne_nil (separator : Char) (nesting : Nesting) (text : Text) :
    splitFrom separator nesting text ≠ [] := by
  induction text generalizing nesting with
  | nil => exact List.cons_ne_nil [] []
  | cons c rest ih =>
    rw [splitFrom]
    split
    · exact List.cons_ne_nil _ _
    · obtain ⟨piece, pieces, hpieces⟩ := List.exists_cons_of_ne_nil (ih (nesting.next c))
      rw [hpieces]
      exact List.cons_ne_nil _ _

/-- The pieces with the separator between them are the text. -/
theorem joinWith_splitFrom (separator : Char) (nesting : Nesting) (text : Text) :
    joinWith [separator] (splitFrom separator nesting text) = text := by
  induction text generalizing nesting with
  | nil => simp [splitFrom, joinWith]
  | cons c rest ih =>
    by_cases h : c = separator ∧ nesting = .top
    · obtain ⟨rfl, rfl⟩ := h
      rw [splitFrom_separator, joinWith_cons_of_ne_nil _ (splitFrom_ne_nil _ _ _), ih,
        List.nil_append]
    · rw [splitFrom_of_not_separator h, joinWith_consPiece c (splitFrom_ne_nil _ _ _), ih]

/-- No piece can be split: the first one begins where the text does, all others at the top. -/
theorem splitFrom_of_pieces {text piece : Text} {pieces : List Text}
    (h : splitFrom separator nesting text = piece :: pieces) :
    splitFrom separator nesting piece = [piece] ∧
      ∀ other ∈ pieces, splitFrom separator .top other = [other] := by
  induction text generalizing nesting piece pieces with
  | nil =>
    obtain ⟨rfl, rfl⟩ := List.cons.inj h
    exact ⟨rfl, List.forall_mem_nil _⟩
  | cons c rest ih =>
    obtain ⟨first, others, hrest⟩ := List.exists_cons_of_ne_nil
      (splitFrom_ne_nil separator (nesting.next c) rest)
    by_cases hc : c = separator ∧ nesting = .top
    · obtain ⟨rfl, rfl⟩ := hc
      rw [splitFrom_separator] at h
      obtain ⟨rfl, rfl⟩ := List.cons.inj h
      obtain ⟨next, more, hpieces⟩ := List.exists_cons_of_ne_nil (splitFrom_ne_nil c .top rest)
      rw [hpieces]
      exact ⟨rfl, List.forall_mem_cons.2 (ih hpieces)⟩
    · rw [splitFrom_of_not_separator hc, hrest, consPiece] at h
      obtain ⟨rfl, rfl⟩ := List.cons.inj h
      obtain ⟨hfirst, hothers⟩ := ih hrest
      refine ⟨?_, hothers⟩
      rw [splitFrom_of_not_separator hc, hfirst, consPiece]

variable (hseparator : IsSeparator separator)

include hseparator

theorem next_separator : Nesting.top.next separator = .top := by
  rcases hseparator with rfl | rfl <;> rfl

/-- A separator at the top parts the pieces in front of it from those behind it. -/
theorem splitFrom_append_separator {before : Text} (h : nesting.behind before = .top)
    (behind : Text) :
    splitFrom separator nesting (before ++ separator :: behind) =
      splitFrom separator nesting before ++ splitFrom separator .top behind := by
  induction before generalizing nesting with
  | nil =>
    obtain rfl : nesting = .top := h
    exact splitFrom_separator separator behind
  | cons c before ih =>
    rw [Nesting.behind_cons] at h
    by_cases hc : c = separator ∧ nesting = .top
    · obtain ⟨rfl, rfl⟩ := hc
      rw [next_separator hseparator] at h
      rw [List.cons_append, splitFrom_separator, splitFrom_separator, ih h, List.cons_append]
    · rw [List.cons_append, splitFrom_of_not_separator hc, splitFrom_of_not_separator hc, ih h,
        consPiece_append c (splitFrom_ne_nil _ _ _)]

/-- Where pieces fall in two, the nesting is the top. -/
theorem behind_eq_top_of_splitFrom {text : Text} {front back : List Text}
    (h : splitFrom separator nesting text = front ++ back) (hfront : front ≠ [])
    (hback : back ≠ []) : nesting.behind (joinWith [separator] front) = .top := by
  induction text generalizing nesting front with
  | nil =>
    have hlength := congrArg List.length h
    have hfront := List.length_pos_iff.2 hfront
    have hback := List.length_pos_iff.2 hback
    rw [splitFrom, List.length_append, List.length_singleton] at hlength
    omega
  | cons c rest ih =>
    obtain ⟨piece, front, rfl⟩ := List.exists_cons_of_ne_nil hfront
    by_cases hc : c = separator ∧ nesting = .top
    · obtain ⟨rfl, rfl⟩ := hc
      rw [splitFrom_separator, List.cons_append] at h
      obtain ⟨rfl, hrest⟩ := List.cons.inj h
      by_cases hmore : front = []
      · rw [hmore]
        rfl
      · rw [joinWith_cons_of_ne_nil _ hmore, List.nil_append, Nesting.behind_cons,
          next_separator hseparator]
        exact ih hrest hmore
    · obtain ⟨first, others, hrest⟩ := List.exists_cons_of_ne_nil
        (splitFrom_ne_nil separator (nesting.next c) rest)
      rw [splitFrom_of_not_separator hc, hrest, consPiece, List.cons_append] at h
      obtain ⟨rfl, rfl⟩ := List.cons.inj h
      have hwhole : joinWith [separator] ((c :: first) :: front) =
          c :: joinWith [separator] (first :: front) :=
        joinWith_consPiece c (List.cons_ne_nil first front)
      rw [hwhole, Nesting.behind_cons]
      exact ih hrest (List.cons_ne_nil _ _)

/-- The pieces fall in two at exactly those separators that stand at the top. -/
theorem fallApart_splitFrom_iff (before behind : Text) :
    FallApart separator (splitFrom separator nesting (before ++ separator :: behind)) before
      behind ↔ nesting.behind before = .top := by
  constructor
  · rintro ⟨front, back, hpieces, hfront, hback, rfl, -⟩
    exact behind_eq_top_of_splitFrom hseparator hpieces hfront hback
  · intro htop
    exact ⟨splitFrom separator nesting before, splitFrom separator .top behind,
      splitFrom_append_separator hseparator htop behind, splitFrom_ne_nil _ _ _,
      splitFrom_ne_nil _ _ _, joinWith_splitFrom _ _ _, joinWith_splitFrom _ _ _⟩

end Pieces

/-! ## Slices -/

/-- The slices of a text from a place on, where `start` is the place at which the slice in hand
begins. -/
def slicesFrom (separator : Char) (nesting : Nesting) (start place : Nat) : Text → List Span
  | [] => [⟨start, place⟩]
  | c :: rest =>
    if c = separator && nesting = .top then
      ⟨start, place⟩ :: slicesFrom separator .top (place + 1) (place + c.utf8Size) rest
    else slicesFrom separator (nesting.next c) start (place + c.utf8Size) rest

/-- The slices between the separators at the top. -/
def slices (separator : Char) (text : Text) : List Span := slicesFrom separator .top 0 0 text

section Slices

variable {separator : Char} (hseparator : IsSeparator separator)

include hseparator

theorem utf8Size_separator : separator.utf8Size = 1 := by
  rcases hseparator with rfl | rfl <;> rfl

/-- Every slice has a text. The first one goes on with what it holds already. -/
theorem mapM_text?_slicesFrom (nesting : Nesting) (before piece rest : Text) :
    (slicesFrom separator nesting before.byteLength (before ++ piece).byteLength rest).mapM
        (fun span ↦ span.text? (before ++ piece ++ rest)) =
      some (piece.foldr consPiece (splitFrom separator nesting rest)) := by
  induction rest generalizing nesting before piece with
  | nil =>
    have hslice : Span.text? ⟨before.byteLength, (before ++ piece).byteLength⟩
        (before ++ piece ++ []) = some piece :=
      Span.text?_append piece [] rfl (byteLength_append before piece)
    rw [slicesFrom, List.mapM_cons, hslice, splitFrom, foldr_consPiece, List.append_nil piece]
    rfl
  | cons c rest ih =>
    have hslice : Span.text? ⟨before.byteLength, (before ++ piece).byteLength⟩
        (before ++ piece ++ c :: rest) = some piece :=
      Span.text?_append piece (c :: rest) rfl (byteLength_append before piece)
    have hplace : (before ++ piece).byteLength + c.utf8Size =
        (before ++ piece ++ [c]).byteLength := by
      rw [byteLength_append _ [c]]
      rfl
    by_cases hc : c = separator ∧ nesting = .top
    · obtain ⟨rfl, rfl⟩ := hc
      have hstart : (before ++ piece).byteLength + 1 = (before ++ piece ++ [c]).byteLength := by
        rw [← hplace, utf8Size_separator hseparator]
      have hmore := ih .top (before ++ piece ++ [c]) []
      rw [List.append_nil, List.foldr_nil, List.append_assoc, List.singleton_append] at hmore
      rw [slicesFrom, if_pos (by simp), hstart, hplace, List.mapM_cons, hslice, hmore,
        splitFrom_separator, foldr_consPiece, List.append_nil]
      rfl
    · have hmore := ih (nesting.next c) before (piece ++ [c])
      rw [← List.append_assoc, ← hplace, List.append_assoc, List.singleton_append,
        List.foldr_append, List.foldr_cons, List.foldr_nil] at hmore
      rw [slicesFrom, if_neg (by simpa using hc), hmore, splitFrom_of_not_separator hc]

theorem mapM_text?_slices (text : Text) :
    (slices separator text).mapM (fun span ↦ span.text? text) =
      some (splitFrom separator .top text) :=
  mapM_text?_slicesFrom hseparator .top [] [] text

end Slices

/-! ## Splitting at the top level -/

section TopLevel

variable {separator : Char} (hseparator : IsSeparator separator)

include hseparator

theorem isBlank_separator : isBlank separator = false := by
  rcases hseparator with rfl | rfl <;> rfl

theorem splitTopLevel_eq (text : Text) :
    splitTopLevel separator text =
      if isAllBlank text then [] else splitFrom separator .top text := by
  have hjoin := joinWith_splitFrom separator .top text
  unfold splitTopLevel
  split
  · rename_i piece hpiece
    rw [hpiece, joinWith, List.intercalate_singleton] at hjoin
    rw [hjoin, hpiece, hjoin]
  · rename_i hmany
    obtain ⟨piece, pieces, hpieces⟩ := List.exists_cons_of_ne_nil
      (splitFrom_ne_nil separator .top text)
    have hmore : pieces ≠ [] := by
      rintro rfl
      exact hmany piece hpieces
    -- Behind the first of several pieces there is a separator, which is not blank.
    have hmem : separator ∈ text := by
      rw [← hjoin, hpieces, joinWith_cons_of_ne_nil _ hmore]
      simp
    have hblank : isAllBlank text = false := by
      rw [isAllBlank, List.all_eq_false]
      exact ⟨separator, hmem, by simp [isBlank_separator hseparator]⟩
    rw [hblank, if_neg Bool.false_ne_true]

theorem splitTopLevel_eq_nil_iff (text : Text) :
    splitTopLevel separator text = [] ↔ isAllBlank text = true := by
  rw [splitTopLevel_eq hseparator]
  split
  · simp_all
  · simp_all [splitFrom_ne_nil]

theorem length_splitTopLevel_le_of_mem {text piece : Text}
    (h : piece ∈ splitTopLevel separator text) : (splitTopLevel separator piece).length ≤ 1 := by
  have hmem : piece ∈ splitFrom separator .top text := by
    rw [splitTopLevel_eq hseparator] at h
    split at h
    · exact absurd h List.not_mem_nil
    · exact h
  obtain ⟨first, others, hpieces⟩ := List.exists_cons_of_ne_nil
    (splitFrom_ne_nil separator .top text)
  have hwhole : splitFrom separator .top piece = [piece] :=
    List.forall_mem_cons (p := fun piece ↦ splitFrom separator .top piece = [piece]).2
      (splitFrom_of_pieces hpieces) piece (hpieces ▸ hmem)
  rw [splitTopLevel_eq hseparator, hwhole]
  split <;> simp

/-- Splitting at the top level gives nothing exactly for white space. All other texts are their
pieces with the separator between them; no piece can be split further, the pieces fall in two at
exactly those separators that stand outside quotes and parentheses, and they are slices of the text
whose ends fall between characters. -/
theorem splitTopLevel_maximal (text : Text) :
    (splitTopLevel separator text = [] ↔ isAllBlank text = true) ∧
      (isAllBlank text = false → joinWith [separator] (splitTopLevel separator text) = text) ∧
      (∀ piece ∈ splitTopLevel separator text, (splitTopLevel separator piece).length ≤ 1) ∧
      (∀ before behind, text = before ++ separator :: behind →
        (FallApart separator (splitTopLevel separator text) before behind ↔
          Nesting.top.behind before = .top)) ∧
      ∃ texts, (slices separator text).mapM (fun span ↦ span.text? text) = some texts ∧
        splitTopLevel separator text = if isAllBlank text then [] else texts := by
  have hsplit (h : isAllBlank text = false) :
      splitTopLevel separator text = splitFrom separator .top text := by
    rw [splitTopLevel_eq hseparator, h, if_neg Bool.false_ne_true]
  refine ⟨splitTopLevel_eq_nil_iff hseparator text, fun hblank ↦ ?_,
    fun piece ↦ length_splitTopLevel_le_of_mem hseparator, ?_, _,
    mapM_text?_slices hseparator text, splitTopLevel_eq hseparator text⟩
  · rw [hsplit hblank, joinWith_splitFrom]
  · rintro before behind rfl
    have hblank : isAllBlank (before ++ separator :: behind) = false := by
      simp [isAllBlank, isBlank_separator hseparator]
    rw [hsplit hblank]
    exact fallApart_splitFrom_iff hseparator before behind

end TopLevel

/-- A closing parenthesis too many, a bar inside quotes, and a parenthesis that nothing closes. -/
def barredText : Text := "é)|f('|')|(a|b".toList

theorem splitTopLevel_maximal_barredText :
    IsSeparator '|' ∧ isAllBlank barredText = false ∧
      splitTopLevel '|' barredText = ["é)".toList, "f('|')".toList, "(a|b".toList] ∧
      joinWith ['|'] (splitTopLevel '|' barredText) = barredText ∧
      (splitTopLevel '|' "f('|')".toList).length ≤ 1 ∧
      FallApart '|' (splitTopLevel '|' barredText) "é)".toList "f('|')|(a|b".toList ∧
      ¬FallApart '|' (splitTopLevel '|' barredText) "é)|f('|')|(a".toList ['b'] ∧
      slices '|' barredText = [⟨0, 3⟩, ⟨4, 10⟩, ⟨11, 15⟩] := by
  have hbar : IsSeparator '|' := .inr rfl
  have hpieces : splitTopLevel '|' barredText =
      ["é)".toList, "f('|')".toList, "(a|b".toList] := by decide
  obtain ⟨-, hjoin, hwhole, hparts, -⟩ := splitTopLevel_maximal hbar barredText
  refine ⟨hbar, by decide, hpieces, hjoin (by decide), hwhole _ (by simp [hpieces]), ?_, ?_,
    by decide⟩
  · exact (hparts "é)".toList "f('|')|(a|b".toList rfl).2 (by decide)
  · exact fun h ↦ absurd ((hparts "é)|f('|')|(a".toList ['b'] rfl).1 h) (by decide)

end ComponentMarkup.Template
