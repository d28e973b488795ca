import ComponentMarkup.Proofs.Stylesheet.Spacing
import Mathlib.Data.Option.Basic

/-!
# Balanced stretches of a style sheet

Preludes, blocks and lists of selectors are read by looking for closing characters. What is read
is told as well by one walk over the lexemes that only keeps the place it is at: outside, or
inside an enclosure in which further ones are open. White space is passed over at every place, so
trimming and collapsing change no balance.
-/

namespace ComponentMarkup.Stylesheet

/-- What a closing character is looked for in. -/
inductive Enclosure where
  | parenthesis
  | bracket
  | brace

def Enclosure.opens : Enclosure → Char → Bool
  | parenthesis => (· = '(')
  | bracket => fun _ ↦ false
  | brace => (· = '\x7b')

def Enclosure.closes : Enclosure → Char → Bool
  | parenthesis => (· = ')')
  | bracket => (· = ']')
  | brace => (· = '\x7d')

/-- Where a walk over lexemes stands; `depth` further enclosures are open. -/
inductive Place where
  | outside
  | within (enclosure : Enclosure) (depth : Nat)

/-- The place behind a character, where `outer` tells it for the characters outside. No walk goes
past a quote that nothing closes. -/
def Place.next? (outer : Char → Option Place) (place : Place) (c : Char) : Option Place :=
  if isQuote c then none
  else match place with
    | outside => outer c
    | within enclosure depth =>
      if enclosure.closes c then
        match depth with
        | 0 => some outside
        | depth + 1 => some (within enclosure depth)
      else some (within enclosure (if enclosure.opens c then depth + 1 else depth))

/-- Walks over lexemes. -/
def walk? (outer : Char → Option Place) : Place → List Lexeme → Option Place
  | place, [] => some place
  | place, .quoted _ :: rest => walk? outer place rest
  | place, .plain c :: rest => (place.next? outer c).bind fun next ↦ walk? outer next rest

/-! ## Walks -/

section Walks

variable {outer : Char → Option Place}

theorem walk?_append (place : Place) (a b : List Lexeme) :
    walk? outer place (a ++ b) = (walk? outer place a).bind fun next ↦ walk? outer next b := by
  induction a generalizing place with
  | nil => rfl
  | cons lexeme a ih =>
    cases lexeme with
    | quoted text => exact ih place
    | plain c => simp only [List.cons_append, walk?, ih, Option.bind_assoc]

theorem walk?_append_of_eq {place next : Place} {a : List Lexeme}
    (h : walk? outer place a = some next) (b : List Lexeme) :
    walk? outer place (a ++ b) = walk? outer next b := by
  rw [walk?_append, h, Option.bind_some]

/-- No place changes at this character. -/
def Passes (outer : Char → Option Place) (c : Char) : Prop :=
  ∀ place : Place, place.next? outer c = some place

/-- A character that means nothing to an enclosure is passed if it is passed outside. -/
theorem passes_of_outer {c : Char} (houter : outer c = some .outside) (hquote : isQuote c = false)
    (henclosure : ∀ e : Enclosure, e.opens c = false ∧ e.closes c = false) : Passes outer c := by
  intro place
  cases place with
  | outside => simp [Place.next?, hquote, houter]
  | within e depth => simp [Place.next?, hquote, henclosure e]

/-- White space outside is passed over. -/
def SkipsBlanks (outer : Char → Option Place) : Prop :=
  ∀ c, Text.isBlank c = true → outer c = some .outside

theorem ne_of_isBlank {c d : Char} (hc : Text.isBlank c = true) (hd : Text.isBlank d = false) :
    c ≠ d := by
  rintro rfl
  simp [hc] at hd

theorem SkipsBlanks.passes (h : SkipsBlanks outer) {c : Char} (hc : Text.isBlank c = true) :
    Passes outer c := by
  have hquote : isQuote c = false := by
    by_contra hquote
    rw [Bool.not_eq_false] at hquote
    simp [isBlank_of_isQuote hquote] at hc
  refine passes_of_outer (h c hc) hquote fun e ↦ ?_
  cases e <;> simp only [Enclosure.opens, Enclosure.closes, decide_eq_false_iff_not, true_and] <;>
    first
    | exact ⟨ne_of_isBlank hc rfl, ne_of_isBlank hc rfl⟩
    | exact ne_of_isBlank hc rfl

theorem walk?_plain_of_passes {c : Char} (h : Passes outer c) (place : Place)
    (rest : List Lexeme) : walk? outer place (.plain c :: rest) = walk? outer place rest := by
  rw [walk?, h place, Option.bind_some]

theorem SkipsBlanks.walk?_blanks (h : SkipsBlanks outer) {blanks : List Lexeme}
    (hblanks : ∀ lexeme ∈ blanks, lexeme.isBlank = true) (place : Place) :
    walk? outer place blanks = some place := by
  induction blanks with
  | nil => rfl
  | cons lexeme rest ih =>
    obtain ⟨hlexeme, hrest⟩ := List.forall_mem_cons.1 hblanks
    cases lexeme with
    | quoted text => simp [Lexeme.isBlank] at hlexeme
    | plain c => rw [walk?_plain_of_passes (h.passes hlexeme), ih hrest]

theorem SkipsBlanks.walk?_trimLexemes (h : SkipsBlanks outer) (input : List Lexeme)
    (place : Place) : walk? outer place (trimLexemes input) = walk? outer place input := by
  obtain ⟨front, back, hfront, hback, heq⟩ := exists_blanks_trimLexemes input
  calc
    walk? outer place (trimLexemes input) =
        walk? outer place (front ++ trimLexemes input ++ back) := by
      rw [List.append_assoc, walk?_append_of_eq (h.walk?_blanks hfront place), walk?_append]
      simp [h.walk?_blanks hback]
    _ = walk? outer place input := by rw [← heq]

theorem SkipsBlanks.walk?_collapseLexemes (h : SkipsBlanks outer) (inRun : Bool)
    (input : List Lexeme) (place : Place) :
    walk? outer place (collapseLexemes inRun input) = walk? outer place input := by
  induction input generalizing inRun place with
  | nil => rfl
  | cons lexeme rest ih =>
    cases lexeme with
    | quoted text => exact ih false place
    | plain c =>
      by_cases hc : Text.isBlank c = true
      · rw [walk?_plain_of_passes (h.passes hc)]
        cases inRun with
        | true => simpa [collapseLexemes, hc] using ih true place
        | false =>
          simp only [collapseLexemes, hc, if_true, Bool.false_eq_true, if_false]
          rw [walk?_plain_of_passes (h.passes rfl), ih]
      · simp only [collapseLexemes, hc, Bool.false_eq_true, if_false, walk?, ih]

/-- No quote stands alone where a walk came through. -/
theorem isQuote_of_walk? {place next : Place} {input : List Lexeme}
    (h : walk? outer place input = some next) {c : Char} (hc : .plain c ∈ input) :
    isQuote c = false := by
  induction input generalizing place with
  | nil => simp at hc
  | cons lexeme rest ih =>
    cases lexeme with
    | quoted text => exact ih h (by simpa using hc)
    | plain d =>
      obtain ⟨middle, hmiddle, hrest⟩ := Option.bind_eq_some_iff.1 h
      rcases List.mem_cons.1 hc with heq | hc
      · rw [Lexeme.plain.inj heq]
        by_contra hquote
        simp [Place.next?, hquote] at hmiddle
      · exact ih hrest hc

end Walks

/-! ## Enclosures -/

section Enclosures

variable {outer : Char → Option Place} {e : Enclosure}

theorem isQuote_of_closes {c : Char} (h : e.closes c = true) : isQuote c = false := by
  cases e <;> simp only [Enclosure.closes, decide_eq_true_eq] at h <;> rw [h] <;> rfl

theorem walk?_closing {c : Char} (h : e.closes c = true) (rest : List Lexeme) :
    walk? outer (.within e 0) (.plain c :: rest) = walk? outer .outside rest := by
  simp [walk?, Place.next?, h, isQuote_of_closes h]

/-- The search for a closing character comes to it by a walk. -/
theorem walk?_of_close? {depth : Nat} {input inner after : List Lexeme}
    (h : close? e.opens e.closes depth input = some (inner, after)) :
    walk? outer (.within e depth) inner = some (.within e 0) := by
  fun_induction close? e.opens e.closes depth input generalizing inner with
  | case1 => simp at h
  | case2 depth text rest ih =>
    simp only [Option.map_eq_some_iff, Prod.exists, Prod.mk.injEq] at h
    obtain ⟨inside, rest', hinside, rfl, rfl⟩ := h
    rw [walk?, ih hinside]
  | case3 c rest hc =>
    simp only [Option.some.injEq, Prod.mk.injEq] at h
    rw [← h.1]
    rfl
  | case4 c rest hc depth ih =>
    simp only [Option.map_eq_some_iff, Prod.exists, Prod.mk.injEq] at h
    obtain ⟨inside, rest', hinside, rfl, rfl⟩ := h
    simpa [walk?, Place.next?, hc, isQuote_of_closes hc] using ih hinside
  | case5 => simp at h
  | case6 depth c rest hc hquote ih =>
    simp only [Option.map_eq_some_iff, Prod.exists, Prod.mk.injEq] at h
    obtain ⟨inside, rest', hinside, rfl, rfl⟩ := h
    simpa [walk?, Place.next?, hc, hquote] using ih hinside

/-- A walk that comes outside has found the closing character. -/
theorem exists_close?_of_walk? {depth : Nat} {input : List Lexeme}
    (h : walk? outer (.within e depth) input = some .outside) :
    ∃ inner after, close? e.opens e.closes depth input = some (inner, after) ∧
      walk? outer .outside after = some .outside := by
  fun_induction close? e.opens e.closes depth input with
  | case1 => simp [walk?] at h
  | case2 depth text rest ih =>
    obtain ⟨inner, after, hclose, hafter⟩ := ih h
    exact ⟨.quoted text :: inner, after, by rw [hclose]; rfl, hafter⟩
  | case3 c rest hc => exact ⟨[], rest, rfl, by rwa [walk?_closing hc] at h⟩
  | case4 c rest hc depth ih =>
    have hrest : walk? outer (.within e depth) rest = some .outside := by
      simpa [walk?, Place.next?, hc, isQuote_of_closes hc] using h
    obtain ⟨inner, after, hclose, hafter⟩ := ih hrest
    exact ⟨.plain c :: inner, after, by rw [hclose]; rfl, hafter⟩
  | case5 depth c rest _ hquote => simp [walk?, Place.next?, hquote] at h
  | case6 depth c rest hc hquote ih =>
    have hrest : walk? outer (.within e (if e.opens c then depth + 1 else depth)) rest =
        some .outside := by
      simpa [walk?, Place.next?, hc, hquote] using h
    obtain ⟨inner, after, hclose, hafter⟩ := ih hrest
    exact ⟨.plain c :: inner, after, by rw [hclose]; rfl, hafter⟩

/-- What follows does not matter to the search. -/
theorem close?_append {depth : Nat} {input inner after : List Lexeme}
    (h : close? e.opens e.closes depth input = some (inner, after)) (rest : List Lexeme) :
    close? e.opens e.closes depth (input ++ rest) = some (inner, after ++ rest) := by
  fun_induction close? e.opens e.closes depth input generalizing inner with
  | case1 => simp at h
  | case2 depth text input ih =>
    simp only [Option.map_eq_some_iff, Prod.exists, Prod.mk.injEq] at h
    obtain ⟨inside, rest', hinside, rfl, rfl⟩ := h
    simp [close?, ih hinside]
  | case3 c input hc =>
    simp only [Option.some.injEq, Prod.mk.injEq] at h
    simp [close?, hc, h.1.symm, h.2]
  | case4 c input hc depth ih =>
    simp only [Option.map_eq_some_iff, Prod.exists, Prod.mk.injEq] at h
    obtain ⟨inside, rest', hinside, rfl, rfl⟩ := h
    simp [close?, hc, ih hinside]
  | case5 => simp at h
  | case6 depth c input hc hquote ih =>
    simp only [Option.map_eq_some_iff, Prod.exists, Prod.mk.injEq] at h
    obtain ⟨inside, rest', hinside, rfl, rfl⟩ := h
    simp [close?, hc, hquote, ih hinside]

/-- Balanced up to an enclosing brace: a walk inside it never comes outside. -/
def IsBlock (body : List Lexeme) : Prop :=
  walk? (fun _ ↦ some .outside) (.within .brace 0) body = some (.within .brace 0)

theorem walk?_outside_ne (e : Enclosure) (depth : Nat) (input : List Lexeme) :
    walk? (fun _ ↦ some .outside) .outside input ≠ some (.within e depth) := by
  induction input with
  | nil => simp [walk?]
  | cons lexeme rest ih =>
    cases lexeme with
    | quoted text => exact ih
    | plain c =>
      by_cases hquote : isQuote c = true
      · simp [walk?, Place.next?, hquote]
      · simpa [walk?, Place.next?, hquote] using ih

theorem close?_of_walk?_within {depth : Nat} {body : List Lexeme}
    (h : walk? (fun _ ↦ some .outside) (.within e depth) body = some (.within e 0)) {c : Char}
    (hc : e.closes c = true) (after : List Lexeme) :
    close? e.opens e.closes depth (body ++ .plain c :: after) = some (body, after) := by
  induction body generalizing depth with
  | nil =>
    obtain rfl : depth = 0 := by simpa [walk?] using h
    simp [close?, hc]
  | cons lexeme rest ih =>
    cases lexeme with
    | quoted text =>
      rw [List.cons_append, close?, ih h]
      rfl
    | plain d =>
      obtain ⟨next, hnext, hrest⟩ := Option.bind_eq_some_iff.1 h
      by_cases hquote : isQuote d = true
      · simp [Place.next?, hquote] at hnext
      by_cases hd : e.closes d = true
      · cases depth with
        | zero =>
          rw [walk?_closing hd] at h
          exact absurd h (walk?_outside_ne e 0 rest)
        | succ depth =>
          have hrest : walk? (fun _ ↦ some .outside) (.within e depth) rest =
              some (.within e 0) := by
            simpa [walk?, Place.next?, hd, hquote] using h
          simp [close?, hd, ih hrest]
      · have hrest : walk? (fun _ ↦ some .outside)
            (.within e (if e.opens d then depth + 1 else depth)) rest = some (.within e 0) := by
          simpa [walk?, Place.next?, hd, hquote] using h
        simp [close?, hd, hquote, ih hrest]

theorem block?_of_isBlock {body : List Lexeme} (h : IsBlock body) (after : List Lexeme) :
    block? (body ++ .plain '\x7d' :: after) = some (body, after) :=
  close?_of_walk?_within (e := .brace) h rfl after

theorem isBlock_of_block? {input body after : List Lexeme}
    (h : block? input = some (body, after)) :
    IsBlock body ∧ input = body ++ .plain '\x7d' :: after := by
  have hclose : close? Enclosure.brace.opens Enclosure.brace.closes 0 input =
      some (body, after) := h
  obtain ⟨c, hc, heq⟩ := close?_eq hclose
  have hbrace : c = '\x7d' := by simpa [Enclosure.closes] using hc
  exact ⟨walk?_of_close? hclose, by rw [heq, hbrace]⟩

end Enclosures

end ComponentMarkup.Stylesheet
