import ComponentMarkup.Proofs.Stylesheet.Lexemes
import Mathlib.Data.List.Infix

/-!
# Comments of a style sheet

A comment is as good as a space. Where the scan for comments stands outside of them and no quote is
left open, what follows is scanned as if it stood alone, so that neither a comment nor what is in it
has any effect on what stands around it.
-/

namespace ComponentMarkup.Stylesheet

/-- Whether the scan for comments ends outside of them with every quote closed: no comment is left
open and no quote stands alone. -/
def endsOutside (text : Text) : Bool :=
  match text with
  | [] => true
  | '/' :: '*' :: rest => ['*', '/'] <:+: rest && endsOutside (afterComment rest)
  | c :: rest =>
    match _h : string? (c :: rest) with
    | some (_, after) => endsOutside after
    | none => !isQuote c && endsOutside rest
termination_by text.length
decreasing_by
  · have := length_afterComment_le rest
    simp
    omega
  · exact length_lt_of_string? _h
  · simp

section Comments

variable {a b body text : Text}

theorem afterComment_cons {c : Char} (h : c = '*' → text.head? ≠ some '/') :
    afterComment (c :: text) = afterComment text := by
  rw [afterComment]
  rintro rest rfl rfl
  exact h rfl rfl

/-- A comment that is closed is closed whatever follows. -/
theorem afterComment_append (h : ['*', '/'] <:+: text) (b : Text) :
    afterComment (text ++ b) = afterComment text ++ b := by
  fun_induction afterComment text with
  | case1 => simp at h
  | case2 text => rfl
  | case3 c text hopen ih =>
    rcases List.infix_cons_iff.1 h with hfront | hrest
    · obtain ⟨rest, hrest⟩ := hfront
      obtain ⟨rfl, rfl⟩ := List.cons.inj hrest
      exact (hopen rest rfl rfl).elim
    · have hne : text ≠ [] := by
        rintro rfl
        simp at hrest
      have hstar : c = '*' → (text ++ b).head? ≠ some '/' := by
        rintro rfl hslash
        rw [List.head?_append_of_ne_nil _ hne] at hslash
        obtain ⟨rest, rfl⟩ := List.head?_eq_some_iff.1 hslash
        exact hopen rest rfl rfl
      rw [List.cons_append, afterComment_cons hstar, ih hrest]

/-- A comment ends where it is closed first. -/
theorem afterComment_of_not_isInfix (h : ¬ ['*', '/'] <:+: body) (b : Text) :
    afterComment (body ++ '*' :: '/' :: b) = b := by
  induction body with
  | nil => rfl
  | cons c body ih =>
    rw [List.infix_cons_iff, not_or] at h
    have hstar : c = '*' → (body ++ '*' :: '/' :: b).head? ≠ some '/' := by
      rintro rfl hslash
      cases body with
      | nil => simp at hslash
      | cons d body =>
        obtain rfl : d = '/' := by simpa using hslash
        exact h.1 ⟨body, rfl⟩
    rw [List.cons_append, afterComment_cons hstar, ih h.2]

/-- What follows a text is scanned as if it stood alone, if the scan of the text ends outside
comments and strings and no comment begins across the end of the text. -/
theorem stripComments_append (ha : endsOutside a = true) (hb : b.head? ≠ some '*') :
    stripComments (a ++ b) = stripComments a ++ stripComments b := by
  fun_induction endsOutside a with
  | case1 => rw [stripComments, List.nil_append, List.nil_append]
  | case2 rest ih =>
    obtain ⟨hclosed, hrest⟩ : ['*', '/'] <:+: rest ∧ endsOutside (afterComment rest) = true := by
      simpa using ha
    rw [List.cons_append, List.cons_append, stripComments, afterComment_append hclosed, ih hrest,
      stripComments, List.cons_append]
  | case3 c rest hcomment string after hstring ih =>
    have hboth : string? (c :: rest ++ b) = some (string, after ++ b) := by
      rw [string?_eq hstring, List.append_assoc]
      exact string?_of_isString (isString_of_string? hstring) _
    rw [stripComments_of_string? hboth, stripComments_of_string? hstring, ih ha, List.append_assoc]
  | case4 c rest hcomment hnone ih =>
    obtain ⟨hquote, hrest⟩ : isQuote c = false ∧ endsOutside rest = true := by simpa using ha
    have hopens : c = '/' → rest.head? ≠ some '*' := by
      rintro rfl hstar
      obtain ⟨more, rfl⟩ := List.head?_eq_some_iff.1 hstar
      exact hcomment more rfl rfl
    have hopensBoth : c = '/' → (rest ++ b).head? ≠ some '*' := by
      intro hslash
      cases rest with
      | nil => exact hb
      | cons d rest => exact hopens hslash
    rw [List.cons_append, stripComments_cons (string?_of_not_quote hquote _) hopensBoth,
      stripComments_cons hnone hopens, ih hrest, List.cons_append]

theorem stripComments_comment (h : ¬ ['*', '/'] <:+: body) (b : Text) :
    stripComments ('/' :: '*' :: (body ++ '*' :: '/' :: b)) = ' ' :: stripComments b := by
  rw [stripComments, afterComment_of_not_isInfix h]

theorem stripComments_space (b : Text) : stripComments (' ' :: b) = ' ' :: stripComments b :=
  stripComments_cons (string?_of_not_quote rfl b) (by simp)

/-- A comment is as good as a space: with the one or the other behind a text whose comments and
quotes are closed, the same style sheet is read, or the text is refused with the same error. -/
theorem read_comment (ha : endsOutside a = true) (hbody : ¬ ['*', '/'] <:+: body) (b : Text) :
    read (a ++ ['/', '*'] ++ body ++ ['*', '/'] ++ b) = read (a ++ [' '] ++ b) := by
  have hstripped : stripComments (a ++ ['/', '*'] ++ body ++ ['*', '/'] ++ b) =
      stripComments (a ++ [' '] ++ b) := by
    calc
      stripComments (a ++ ['/', '*'] ++ body ++ ['*', '/'] ++ b) =
          stripComments (a ++ '/' :: '*' :: (body ++ '*' :: '/' :: b)) := by simp
      _ = stripComments a ++ ' ' :: stripComments b := by
        rw [stripComments_append ha (by simp), stripComments_comment hbody]
      _ = stripComments (a ++ ' ' :: b) := by
        rw [stripComments_append ha (by simp), stripComments_space]
      _ = stripComments (a ++ [' '] ++ b) := by simp
  rw [read, read, hstripped]

/-- A string that holds the opening of a comment and an escaped quote, and a comment that holds a
quote. -/
def hidingText : Text := ['a', '"', '/', '*', '\\', '"', '"', '/', '*', '\'', '*', '/']

/-- A quote, a brace and a backslash in a comment have no effect. -/
theorem read_comment_hidingText :
    endsOutside hidingText = true ∧ ¬ ['*', '/'] <:+: ['"', '\x7b', '\\'] ∧
      read (hidingText ++ ['/', '*'] ++ ['"', '\x7b', '\\'] ++ ['*', '/'] ++ ['\x7b', '\x7d']) =
        read (hidingText ++ [' '] ++ ['\x7b', '\x7d']) := by
  have hends : endsOutside hidingText = true := by with_unfolding_all rfl
  have hbody : ¬ ['*', '/'] <:+: ['"', '\x7b', '\\'] := by decide
  exact ⟨hends, hbody, read_comment hends hbody ['\x7b', '\x7d']⟩

end Comments

end ComponentMarkup.Stylesheet
