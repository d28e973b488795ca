import ComponentMarkup.Proofs.Stylesheet.Selectors

/-!
# Lists of selectors as they are written

A list of selectors is written with commas, strings, parentheses that are balanced, brackets that
are closed and other characters. Parentheses nest and hold strings; brackets hold strings and do
not nest. No comma inside of any of these separates selectors.

Such a list is split at exactly the commas that stand on their own. What is left of each part
without the white space around it is again a part of a list, so it is one selector.
-/

namespace ComponentMarkup.Stylesheet

open Text

/-- What balanced parentheses hold. -/
inductive InParentheses : Text → Prop
  | nil : InParentheses []
  | string {string rest : Text} (isString : IsString string) (h : InParentheses rest) :
      InParentheses (string ++ rest)
  | parentheses {inside rest : Text} (hinside : InParentheses inside) (h : InParentheses rest) :
      InParentheses ('(' :: inside ++ ')' :: rest)
  | plain {c : Char} {rest : Text} (no_quote : isQuote c = false) (not_open : c ≠ '(')
      (not_close : c ≠ ')') (h : InParentheses rest) : InParentheses (c :: rest)

/-- What closed brackets hold. -/
inductive InBrackets : Text → Prop
  | nil : InBrackets []
  | string {string rest : Text} (isString : IsString string) (h : InBrackets rest) :
      InBrackets (string ++ rest)
  | plain {c : Char} {rest : Text} (no_quote : isQuote c = false) (not_close : c ≠ ']')
      (h : InBrackets rest) : InBrackets (c :: rest)

/-- Neither a comma nor a quote, parenthesis or bracket. -/
def isListChar (c : Char) : Bool :=
  c ≠ ',' && !isQuote c && c ≠ '(' && c ≠ ')' && c ≠ '[' && c ≠ ']'

/-- One piece of a list of selectors. -/
inductive ListPiece where
  | comma
  | string (text : Text) (isString : IsString text)
  | parentheses (inside : Text) (balanced : InParentheses inside)
  | brackets (inside : Text) (closed : InBrackets inside)
  | run (text : Text) (chars : ∀ c ∈ text, isListChar c = true)

namespace ListPiece

def text : ListPiece → Text
  | comma => [',']
  | string text _ => text
  | parentheses inside _ => '(' :: inside ++ [')']
  | brackets inside _ => '[' :: inside ++ [']']
  | run text _ => text

def isComma : ListPiece → Bool
  | comma => true
  | _ => false

/-- The text of pieces one after the other. -/
def write (pieces : List ListPiece) : Text := pieces.flatMap text

/-- The texts between the commas. -/
def partTexts (pieces : List ListPiece) : List Text := (pieces.splitOnP isComma).map write

end ListPiece

/-- The selectors of a text that is a list of them. -/
def selectorList (list : Text) : List Text := selectors (lexemes list)

/-! ## Texts without an open quote -/

/-- What follows the text does not change how it is cut into lexemes. -/
def IsClosed (text : Text) : Prop := ∀ rest, lexemes (text ++ rest) = lexemes text ++ lexemes rest

section Closed

variable {s t : Text}

theorem isClosed_nil : IsClosed [] := by
  intro rest
  rw [lexemes]
  rfl

theorem IsClosed.append (hs : IsClosed s) (ht : IsClosed t) : IsClosed (s ++ t) := by
  intro rest
  rw [List.append_assoc, hs, ht, hs, List.append_assoc]

theorem lexemes_string_append (h : IsString s) (rest : Text) :
    lexemes (s ++ rest) = .quoted s :: lexemes rest :=
  lexemes_of_string? (string?_of_isString h rest)

theorem lexemes_string (h : IsString s) : lexemes s = [.quoted s] := by
  have happend := lexemes_string_append h []
  rwa [List.append_nil, lexemes] at happend

theorem isClosed_string (h : IsString s) : IsClosed s := by
  intro rest
  rw [lexemes_string_append h, lexemes_string h, List.singleton_append]

theorem lexemes_plain_cons {c : Char} (h : isQuote c = false) (rest : Text) :
    lexemes (c :: rest) = .plain c :: lexemes rest :=
  lexemes_cons (string?_of_not_quote h rest)

theorem IsClosed.cons {c : Char} (hc : isQuote c = false) (ht : IsClosed t) :
    IsClosed (c :: t) := by
  intro rest
  rw [List.cons_append, lexemes_plain_cons hc, lexemes_plain_cons hc, ht, List.cons_append]

/-- A text is closed and the walk over it comes back to the place where it began. -/
structure Returns (outer : Char → Option Place) (place : Place) (text : Text) : Prop where
  isClosed : IsClosed text
  walk : walk? outer place (lexemes text) = some place

theorem InParentheses.returns {inside : Text} (h : InParentheses inside)
    (outer : Char → Option Place) (depth : Nat) :
    Returns outer (.within .parenthesis depth) inside := by
  induction h generalizing depth with
  | nil => exact ⟨isClosed_nil, by rw [lexemes]; rfl⟩
  | string isString _ ih =>
    refine ⟨(isClosed_string isString).append (ih depth).isClosed, ?_⟩
    rw [lexemes_string_append isString]
    exact (ih depth).walk
  | @parentheses inside rest _ _ hinside hrest =>
    have hback : IsClosed (')' :: rest) := (hrest depth).isClosed.cons rfl
    refine ⟨((hinside depth).isClosed.append hback).cons rfl, ?_⟩
    have hopen (more : List Lexeme) :
        walk? outer (.within .parenthesis depth) (.plain '(' :: more) =
          walk? outer (.within .parenthesis (depth + 1)) more := rfl
    have hclose (more : List Lexeme) :
        walk? outer (.within .parenthesis (depth + 1)) (.plain ')' :: more) =
          walk? outer (.within .parenthesis depth) more := rfl
    rw [List.cons_append, lexemes_plain_cons rfl, (hinside depth).isClosed, lexemes_plain_cons rfl,
      hopen, walk?_append_of_eq (hinside (depth + 1)).walk, hclose]
    exact (hrest depth).walk
  | plain no_quote not_open not_close _ ih =>
    refine ⟨(ih depth).isClosed.cons no_quote, ?_⟩
    rw [lexemes_plain_cons no_quote, walk?]
    simp [Place.next?, no_quote, Enclosure.closes, Enclosure.opens, not_open, not_close,
      (ih depth).walk]

theorem InBrackets.returns {inside : Text} (h : InBrackets inside)
    (outer : Char → Option Place) : Returns outer (.within .bracket 0) inside := by
  induction h with
  | nil => exact ⟨isClosed_nil, by rw [lexemes]; rfl⟩
  | string isString _ ih =>
    refine ⟨(isClosed_string isString).append ih.isClosed, ?_⟩
    rw [lexemes_string_append isString]
    exact ih.walk
  | plain no_quote not_close _ ih =>
    refine ⟨ih.isClosed.cons no_quote, ?_⟩
    rw [lexemes_plain_cons no_quote, walk?]
    simp [Place.next?, no_quote, Enclosure.closes, Enclosure.opens, not_close, ih.walk]

end Closed

/-! ## Stretches -/

section Stretches

/-- A piece that keeps together what it holds. -/
structure ListPiece.Holds (piece : ListPiece) : Prop where
  isClosed : IsClosed piece.text
  isStretch : IsStretch (lexemes piece.text)

theorem ListPiece.holds_run {text : Text} (chars : ∀ c ∈ text, isListChar c = true) :
    (run text chars).Holds := by
  induction text with
  | nil => exact ⟨isClosed_nil, by rw [ListPiece.text, lexemes]; exact isStretch_nil⟩
  | cons c rest ih =>
    obtain ⟨hc, hrest⟩ := List.forall_mem_cons.1 chars
    obtain ⟨hclosed, hstretch⟩ := ih hrest
    simp only [isListChar, ne_eq, decide_not, Bool.and_eq_true, Bool.not_eq_true',
      decide_eq_false_iff_not] at hc
    obtain ⟨⟨⟨⟨⟨hcomma, hquote⟩, hopen⟩, hclose⟩, hbracket⟩, hend⟩ := hc
    refine ⟨hclosed.cons hquote, ?_⟩
    rw [text, lexemes_plain_cons hquote]
    exact (isStretch_plain hcomma hopen hbracket (by simp [hclose, hend, hquote])).append hstretch

theorem ListPiece.holds_of_not_comma {piece : ListPiece} (h : piece.isComma = false) :
    piece.Holds := by
  cases piece with
  | comma => exact Bool.noConfusion h
  | run text chars => exact holds_run chars
  | string text isString =>
    refine ⟨isClosed_string isString, ?_⟩
    rw [ListPiece.text, lexemes_string isString]
    exact isStretch_quoted text
  | parentheses inside balanced =>
    obtain ⟨hclosed, hwalk⟩ := balanced.returns (fun _ ↦ some .outside) 0
    have hend : IsClosed [')'] := isClosed_nil.cons rfl
    have hinner : parenthesis? (lexemes inside ++ [.plain ')']) = some (lexemes inside, []) :=
      close?_of_walk?_within (e := .parenthesis) hwalk rfl []
    refine ⟨(hclosed.append hend).cons rfl, ?_⟩
    rw [ListPiece.text, List.cons_append, lexemes_plain_cons rfl, hclosed, lexemes_plain_cons rfl,
      lexemes]
    exact isStretch_parenthesis hinner
  | brackets inside closed =>
    obtain ⟨hclosed, hwalk⟩ := closed.returns fun _ ↦ some .outside
    have hend : IsClosed [']'] := isClosed_nil.cons rfl
    have hinner : bracket? (lexemes inside ++ [.plain ']']) = some (lexemes inside, []) :=
      close?_of_walk?_within (e := .bracket) hwalk rfl []
    refine ⟨(hclosed.append hend).cons rfl, ?_⟩
    rw [ListPiece.text, List.cons_append, lexemes_plain_cons rfl, hclosed, lexemes_plain_cons rfl,
      lexemes]
    exact isStretch_bracket hinner

end Stretches

/-! ## Splitting -/

section Splitting

/-- A list is split into the texts between its commas. -/
theorem parts?_lexemes_write (pieces : List ListPiece) :
    parts? (lexemes (ListPiece.write pieces)) =
      some ((ListPiece.partTexts pieces).map lexemes) := by
  induction pieces with
  | nil =>
    have hnil : lexemes [] = [] := by rw [lexemes]
    simp [ListPiece.write, ListPiece.partTexts, hnil, parts?]
  | cons piece pieces ih =>
    have hwrite : ListPiece.write (piece :: pieces) = piece.text ++ ListPiece.write pieces := rfl
    rw [hwrite, ListPiece.partTexts, List.splitOnP_cons_eq_if_modifyHead]
    by_cases hcomma : piece.isComma = true
    · obtain rfl : piece = .comma := by
        cases piece <;> first | rfl | exact Bool.noConfusion hcomma
      have hempty : IsPart [] := rfl
      have hsplit := parts?_append_comma hempty (lexemes (ListPiece.write pieces))
      rw [List.nil_append, ih, Option.map_some, ← lexemes_plain_cons rfl] at hsplit
      have hnil : lexemes [] = [] := by rw [lexemes]
      simpa [ListPiece.text, ListPiece.isComma, ListPiece.write, ListPiece.partTexts, hnil]
        using hsplit
    · obtain ⟨hclosed, hstretch⟩ := ListPiece.holds_of_not_comma (by simpa using hcomma)
      obtain ⟨first, others, hsplit⟩ := List.exists_cons_of_ne_nil
        (List.splitOnP_ne_nil ListPiece.isComma pieces)
      have hfirst : lexemes (ListPiece.write (piece :: first)) =
          lexemes piece.text ++ lexemes (ListPiece.write first) := hclosed _
      rw [hclosed, hstretch.parts, ih, if_neg hcomma, ListPiece.partTexts, hsplit,
        List.modifyHead_cons, List.map_cons, List.map_cons, List.map_cons, List.map_cons, hfirst]
      rfl

theorem selectorList_write (pieces : List ListPiece) :
    selectorList (ListPiece.write pieces) =
      ((ListPiece.partTexts pieces).map trim).filter (!·.isEmpty) := by
  have htrim : (fun text ↦ trim (textOf (lexemes text))) = trim := by
    funext text
    rw [textOf_lexemes]
  rw [selectorList, selectors, parts?_lexemes_write, Option.getD_some, List.map_map]
  exact congrArg (fun f ↦ ((ListPiece.partTexts pieces).map f).filter (!·.isEmpty)) htrim

/-- The selectors of a rule are those of the text in front of its block. -/
theorem selectors_eq_selectorList {head : List Lexeme} (h : ∀ lexeme ∈ head, lexeme.IsWhole) :
    selectors head = selectorList (textOf head) := by
  rw [selectorList, lexemes_textOf h]

/-- A selector that stands alone in a list is the whole list. -/
theorem selectorList_trim_of_isPart {text : Text} (h : IsPart (lexemes text)) :
    selectorList (trim text) = [trim text].filter (!·.isEmpty) := by
  have hwhole : ∀ lexeme ∈ lexemes text, lexeme.IsWhole := by
    rintro (string | c) hmem
    · exact isWhole_of_quoted_mem hmem
    · exact isQuote_of_walk? h hmem
  have htrimmed : ∀ lexeme ∈ trimLexemes (lexemes text), lexeme.IsWhole :=
    fun lexeme hmem ↦ hwhole lexeme ((trimLexemes_isInfix _).subset hmem)
  have htext : trim text = textOf (trimLexemes (lexemes text)) := by
    rw [← trim_textOf hwhole, textOf_lexemes]
  have hpart : IsPart (trimLexemes (lexemes text)) := by
    rw [IsPart, (skipsBlanks_partPlace? false).walk?_trimLexemes]
    exact h
  rw [htext, ← selectors_eq_selectorList htrimmed, selectors, parts?_of_isPart hpart,
    Option.getD_some, List.map_singleton, ← htext, trim_trim]

/-- A list is split at exactly the commas outside strings, parentheses and brackets: its selectors
are the texts between these commas, trimmed and without the empty ones, in their order. Each of
them is a list of one selector. -/
theorem selectorList_write_and_selectorList (pieces : List ListPiece) :
    selectorList (ListPiece.write pieces) =
        ((ListPiece.partTexts pieces).map trim).filter (!·.isEmpty) ∧
      ∀ selector ∈ selectorList (ListPiece.write pieces), selectorList selector = [selector] := by
  have hlist := selectorList_write pieces
  refine ⟨hlist, fun selector hselector ↦ ?_⟩
  rw [hlist, List.mem_filter, List.mem_map] at hselector
  obtain ⟨⟨text, htext, rfl⟩, hnonempty⟩ := hselector
  have hpart : IsPart (lexemes text) :=
    isPart_of_mem_parts? (parts?_lexemes_write pieces) _ (List.mem_map_of_mem htext)
  rw [selectorList_trim_of_isPart hpart]
  exact List.filter_eq_self.2 (List.forall_mem_singleton.2 hnonempty)

end Splitting

/-- Parentheses with a comma and a string in them, white space between commas, a bracket that holds
an open parenthesis, and a string with an escape. -/
def crowdedList : List ListPiece :=
  [.run [':', 'i', 's'] (by simp [isListChar, isQuote]),
    .parentheses [',', '(', '\'', ')', '\'', ')']
      (.plain rfl (by decide) (by decide)
        (.parentheses (.string ⟨'\'', [')', '\''], rfl, rfl, .plain (by decide) (by decide) .close⟩
          .nil) .nil)),
    .run [' ', '>', ' ', 'b', ' '] (by simp [isListChar, isQuote]), .comma,
    .run [' '] (by simp [isListChar, isQuote]), .comma,
    .brackets ['(', ','] (.plain rfl (by decide) (.plain rfl (by decide) .nil)), .comma,
    .string ['"', '\\', '"', ',', '"'] ⟨'"', ['\\', '"', ',', '"'], rfl, rfl,
      .escape '"' (.plain (by decide) (by decide) .close)⟩]

theorem selectorList_crowdedList :
    ListPiece.write crowdedList = ":is(,(')')) > b , ,[(,],\"\\\",\"".toList ∧
      selectorList (ListPiece.write crowdedList) =
        [":is(,(')')) > b".toList, "[(,]".toList, "\"\\\",\"".toList] ∧
      ":is(,(')')) > b".toList ∈ selectorList (ListPiece.write crowdedList) ∧
      selectorList ":is(,(')')) > b".toList = [":is(,(')')) > b".toList] := by
  obtain ⟨hlist, hone⟩ := selectorList_write_and_selectorList crowdedList
  have hselectors : selectorList (ListPiece.write crowdedList) =
      [":is(,(')')) > b".toList, "[(,]".toList, "\"\\\",\"".toList] := by
    rw [hlist]
    decide
  have hmem : ":is(,(')')) > b".toList ∈ selectorList (ListPiece.write crowdedList) := by
    rw [hselectors]
    exact List.mem_cons_self
  exact ⟨by decide, hselectors, hmem, hone _ hmem⟩

end ComponentMarkup.Stylesheet
