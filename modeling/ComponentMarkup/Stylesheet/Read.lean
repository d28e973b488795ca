import ComponentMarkup.Stylesheet.Basic
import ComponentMarkup.Stylesheet.Lexeme

/-!
# Reading a style sheet

Each item begins with a prelude: all up to a brace, a semicolon or a parenthesis that nothing
opened, where strings and balanced parentheses count as a whole. What follows the prelude decides
what it is. A semicolon ends a statement. A brace opens the block of a rule, or of an at-rule when
the prelude begins with `@`; the block of a grouping at-rule holds items, every other block is
kept as a text. Inside a group, a prelude may also stand before the closing brace.

Reading stops where no item can be read. A text is a style sheet if nothing but white space is
left there.
-/

namespace ComponentMarkup.Stylesheet

open Text

/-- Why a text is no style sheet. -/
inductive ReadError where
  /-- No item can be read here. -/
  | unexpected (rest : Text)
  deriving DecidableEq, Repr

/-- How much of the rest a message shows. -/
def excerptLength : Nat := 32

def ReadError.message : ReadError → Text
  | unexpected rest =>
    "invalid stylesheet: unexpected input at '".toList ++ rest.take excerptLength ++ ['\'']

/-- Reads up to the closing character that belongs to an opening one already read, `depth` further
ones being open: what stands before it and what follows it. A quote that nothing closes ends the
search. -/
def close? (opens closes : Char → Bool) (depth : Nat) :
    List Lexeme → Option (List Lexeme × List Lexeme)
  | [] => none
  | .quoted text :: rest =>
    (close? opens closes depth rest).map fun (inner, after) => (.quoted text :: inner, after)
  | .plain c :: rest =>
    if closes c then
      match depth with
      | 0 => some ([], rest)
      | depth + 1 =>
        (close? opens closes depth rest).map fun (inner, after) => (.plain c :: inner, after)
    else if isQuote c then none
    else
      (close? opens closes (if opens c then depth + 1 else depth) rest).map
        fun (inner, after) => (.plain c :: inner, after)

/-- What stands inside a parenthesis already opened, and what follows it. -/
def parenthesis? (input : List Lexeme) : Option (List Lexeme × List Lexeme) :=
  close? (· = '(') (· = ')') 0 input

/-- What stands inside a bracket already opened, and what follows it; brackets do not nest. -/
def bracket? (input : List Lexeme) : Option (List Lexeme × List Lexeme) :=
  close? (fun _ => false) (· = ']') 0 input

/-- What stands inside a brace already opened, and what follows it. -/
def block? (input : List Lexeme) : Option (List Lexeme × List Lexeme) :=
  close? (· = '\x7b') (· = '\x7d') 0 input

theorem length_lt_of_close? {opens closes : Char → Bool} {depth : Nat}
    {input inner after : List Lexeme}
    (h : close? opens closes depth input = some (inner, after)) :
    after.length < input.length := by
  fun_induction close? opens closes depth input generalizing inner <;>
    simp only [Option.map_eq_some_iff, Prod.exists, Prod.mk.injEq, Option.some.injEq,
      reduceCtorEq] at h <;>
    grind

/-- Ends a prelude. -/
def endsPrelude (c : Char) : Bool :=
  c = '\x7b' || c = '\x7d' || c = ';' || c = ')' || isQuote c

/-- The longest prelude that the input begins with, and what follows it. -/
def prelude (input : List Lexeme) : List Lexeme × List Lexeme :=
  match input with
  | [] => ([], [])
  | .quoted text :: rest => (.quoted text :: (prelude rest).1, (prelude rest).2)
  | .plain c :: rest =>
    if c = '(' then
      match _h : parenthesis? rest with
      | some (inner, after) =>
        (.plain '(' :: inner ++ .plain ')' :: (prelude after).1, (prelude after).2)
      | none => ([], input)
    else if endsPrelude c then ([], input)
    else (.plain c :: (prelude rest).1, (prelude rest).2)
termination_by input.length
decreasing_by
  all_goals first
    | simp; done
    | have := length_lt_of_close? _h
      simp
      omega

/-- What a block holds, its closing character and what follows it are the input. -/
theorem close?_eq {opens closes : Char → Bool} {depth : Nat} {input inner after : List Lexeme}
    (h : close? opens closes depth input = some (inner, after)) :
    ∃ c, closes c = true ∧ input = inner ++ .plain c :: after := by
  fun_induction close? opens closes depth input generalizing inner <;>
    simp only [Option.map_eq_some_iff, Prod.exists, Prod.mk.injEq, Option.some.injEq,
      reduceCtorEq] at h <;>
    grind

/-- A prelude and what follows it are the input. -/
theorem prelude_append (input : List Lexeme) :
    (prelude input).1 ++ (prelude input).2 = input := by
  fun_induction prelude input with
  | case1 => rfl
  | case2 text rest ih => simp [ih]
  | case3 rest inner after h ih =>
    obtain ⟨c, hc, rfl⟩ := close?_eq h
    simp only [decide_eq_true_eq] at hc
    simp [ih, hc]
  | case4 | case5 => rfl
  | case6 c rest _ _ ih => simp [ih]

/-- Puts lexemes in front of the first part. -/
def prepend (lexemes : List Lexeme) : List (List Lexeme) → List (List Lexeme)
  | [] => [lexemes]
  | part :: parts => (lexemes ++ part) :: parts

/-- The parts between the commas outside strings, parentheses and brackets, if these are
balanced. -/
def parts? (input : List Lexeme) : Option (List (List Lexeme)) :=
  match input with
  | [] => some [[]]
  | .quoted text :: rest => (parts? rest).map (prepend [.quoted text])
  | .plain c :: rest =>
    if c = ',' then (parts? rest).map ([] :: ·)
    else if c = '(' then
      match _h : parenthesis? rest with
      | some (inner, after) => (parts? after).map (prepend (.plain '(' :: inner ++ [.plain ')']))
      | none => none
    else if c = '[' then
      match _h : bracket? rest with
      | some (inner, after) => (parts? after).map (prepend (.plain '[' :: inner ++ [.plain ']']))
      | none => none
    else if c = ')' || c = ']' || isQuote c then none
    else (parts? rest).map (prepend [.plain c])
termination_by input.length
decreasing_by
  all_goals first
    | simp; done
    | have := length_lt_of_close? _h
      simp
      omega

/-- The selectors of a list, which is one selector if it cannot be split. -/
def selectors (input : List Lexeme) : List Text :=
  (((parts? input).getD [input]).map fun part => trim (textOf part)).filter (!·.isEmpty)

/-- At-rules whose block holds items. -/
def groupNames : List Text :=
  ["media".toList, "supports".toList, "document".toList, "-moz-document".toList,
    "layer".toList, "container".toList, "scope".toList]

/-- The prelude of an at-rule whose block holds items. -/
def isGrouping (prelude : Text) : Bool :=
  let name := (prelude.dropWhile (· = '@')).takeWhile fun c => c.isAlphanum || c = '-'
  groupNames.contains (lower name)

/-- What an item turns out to be once its prelude has been read. -/
inductive Reading where
  | whole (item : Item) (rest : List Lexeme)
  /-- A group, read up to behind its opening brace. -/
  | group (prelude : Text) (body : List Lexeme)

def Reading.rest : Reading → List Lexeme
  | whole _ rest => rest
  | group _ body => body

/-- A prelude that begins with `@` itself, no white space before it. -/
def isAtRule (head : List Lexeme) : Bool := head.head? = some (.plain '@')

/-- The item with this prelude and a block that holds no items. -/
def blockItem (head body : List Lexeme) : Item :=
  if isAtRule head then
    .verbatim (trim (textOf head) ++ [' ', '\x7b'] ++ trim (textOf body) ++ ['\x7d'])
  else .rule ⟨selectors head, trim (textOf body)⟩

/-- The item with this prelude, from what follows the prelude. -/
def afterPrelude? (inGroup : Bool) (head : List Lexeme) : List Lexeme → Option Reading
  | .plain c :: rest =>
    if c = ';' then some (.whole (.verbatim (trim (textOf head) ++ [';'])) rest)
    else if c = '\x7b' then
      if isAtRule head && isGrouping (trim (textOf head)) then
        some (.group (trim (textOf head)) rest)
      else (block? rest).map fun (body, after) => .whole (blockItem head body) after
    else if c = '\x7d' && inGroup then
      some (.whole (.verbatim (trim (textOf head))) (.plain c :: rest))
    else none
  | _ => none

def dropLayout (input : List Lexeme) : List Lexeme :=
  input.dropWhile fun
    | .plain c => isLayout c
    | .quoted _ => false

/-- The item that the input begins with, white space aside. -/
def reading? (inGroup : Bool) (input : List Lexeme) : Option Reading :=
  let (head, rest) := prelude (dropLayout input)
  if head.isEmpty then none else afterPrelude? inGroup head rest

/-- What follows the closing brace of a group, white space aside. -/
def afterGroup? (input : List Lexeme) : Option (List Lexeme) :=
  match dropLayout input with
  | .plain c :: rest => if c = '\x7d' then some rest else none
  | _ => none

theorem length_lt_of_afterPrelude? {inGroup : Bool} {head input : List Lexeme} {reading : Reading}
    (h : afterPrelude? inGroup head input = some reading) :
    reading.rest.length ≤ input.length := by
  unfold afterPrelude? at h
  split at h
  · rename_i c rest
    split at h
    · cases h
      simp [Reading.rest]
    split at h
    · split at h
      · cases h
        simp [Reading.rest]
      · simp only [Option.map_eq_some_iff, Prod.exists] at h
        obtain ⟨_, _, hb, rfl⟩ := h
        have := length_lt_of_close? hb
        simp only [Reading.rest, List.length_cons]
        omega
    split at h
    · cases h
      simp [Reading.rest]
    · simp at h
  · simp at h

theorem length_lt_of_reading? {inGroup : Bool} {input : List Lexeme} {reading : Reading}
    (h : reading? inGroup input = some reading) : reading.rest.length < input.length := by
  have hd := (List.dropWhile_suffix (l := input) fun
    | .plain c => isLayout c
    | .quoted _ => false).length_le
  have hp := congrArg List.length (prelude_append (dropLayout input))
  simp only [reading?] at h
  split at h
  · simp at h
  · rename_i hh
    have ha := length_lt_of_afterPrelude? h
    rw [List.isEmpty_iff] at hh
    have := List.length_pos_iff.2 hh
    rw [List.length_append] at hp
    unfold dropLayout at *
    omega

theorem length_lt_of_afterGroup? {input rest : List Lexeme} (h : afterGroup? input = some rest) :
    rest.length < input.length := by
  have hd := (List.dropWhile_suffix (l := input) fun
    | .plain c => isLayout c
    | .quoted _ => false).length_le
  unfold afterGroup? dropLayout at h
  split at h
  · rename_i he
    rw [he] at hd
    split at h
    · cases h
      simp only [List.length_cons] at hd
      omega
    · simp at h
  · simp at h

/-- The items that the input begins with, and what follows them. An item that cannot be read, or a
group that nothing closes, ends the list. -/
def readItems (inGroup : Bool) (input : List Lexeme) :
    { result : List Item × List Lexeme // result.2.length ≤ input.length } :=
  match h : reading? inGroup input with
  | none => ⟨([], input), Nat.le_refl _⟩
  | some (.whole item rest) =>
    have hr : rest.length < input.length := length_lt_of_reading? h
    let more := readItems inGroup rest
    ⟨(item :: more.1.1, more.1.2), Nat.le_trans more.2 (Nat.le_of_lt hr)⟩
  | some (.group prelude body) =>
    have hb : body.length < input.length := length_lt_of_reading? h
    let inner := readItems true body
    match hg : afterGroup? inner.1.2 with
    | none => ⟨([], input), Nat.le_refl _⟩
    | some rest =>
      have hr : rest.length < input.length := by
        have := length_lt_of_afterGroup? hg
        have := inner.2
        omega
      let more := readItems inGroup rest
      ⟨(.group prelude inner.1.1 :: more.1.1, more.1.2), Nat.le_trans more.2 (Nat.le_of_lt hr)⟩
termination_by input.length

/-- Reads a style sheet. -/
def read (text : Text) : Except ReadError Stylesheet :=
  let result := (readItems false (lexemes (stripComments text))).1
  let rest := trim (textOf result.2)
  if rest.isEmpty then .ok ⟨result.1⟩ else .error (.unexpected rest)

end ComponentMarkup.Stylesheet
