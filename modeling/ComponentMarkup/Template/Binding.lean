import ComponentMarkup.Text.Blank

/-!
# Bindings in a template

A binding is an expression between double braces, whose value is escaped, or between triple
braces, whose value stands as it is. White space around the expression does not belong to it, an
expression is not empty, and it ends as early as it can. Braces that open no binding are text.
-/

namespace ComponentMarkup.Template

open Text

/-- An expression, and whether its value is escaped. -/
structure Binding where
  isEscaped : Bool
  expression : Text
  deriving DecidableEq, Repr

/-- A template is a list of characters that are copied and bindings that are filled. -/
inductive Part where
  | copied (c : Char)
  | bound (binding : Binding)
  deriving DecidableEq, Repr

def openDouble : Text := ['\x7b', '\x7b']
def openTriple : Text := ['\x7b', '\x7b', '\x7b']
def closeDouble : Text := ['\x7d', '\x7d']
def closeTriple : Text := ['\x7d', '\x7d', '\x7d']

/-- Reads up to the first place where white space and the closing braces follow: what stands
before the white space, and what follows the braces. -/
def upTo? (closing : Text) : Text → Option (Text × Text)
  | [] => none
  | c :: text =>
    match after? closing ((c :: text).dropWhile isBlank) with
    | some rest => some ([], rest)
    | none => (upTo? closing text).map fun (before, rest) => (c :: before, rest)

/-- Reads an expression behind the opening braces, and what follows the closing ones. White space
alone is an expression of one character. -/
def expression? (closing text : Text) : Option (Text × Text) :=
  let body := text.dropWhile isBlank
  let read := match body with
    | [] => none
    | c :: rest => (upTo? closing rest).map fun (before, after) => (c :: before, after)
  match read with
  | some found => some found
  | none =>
    match (text.takeWhile isBlank).getLast?, after? closing body with
    | some blank, some after => some ([blank], after)
    | _, _ => none

/-- A binding behind these opening braces, and what follows it. -/
def bindingWith? (isEscaped : Bool) (opening closing text : Text) : Option (Binding × Text) :=
  (after? opening text).bind fun inside =>
    (expression? closing inside).map fun (expression, rest) => (⟨isEscaped, expression⟩, rest)

/-- The binding that a text begins with, and what follows it. Triple braces are tried first. -/
def binding? (text : Text) : Option (Binding × Text) :=
  match bindingWith? false openTriple closeTriple text with
  | some found => some found
  | none => bindingWith? true openDouble closeDouble text

theorem length_le_of_after? {literal text rest : Text} (h : after? literal text = some rest) :
    rest.length ≤ text.length := by
  rw [after?_eq_some_iff.1 h]
  simp

theorem length_le_of_upTo? {closing text before rest : Text}
    (h : upTo? closing text = some (before, rest)) : rest.length ≤ text.length := by
  induction text generalizing before with
  | nil => simp [upTo?] at h
  | cons c text ih =>
    unfold upTo? at h
    split at h
    · rename_i ha
      have h₁ := length_le_of_after? ha
      have h₂ := (List.dropWhile_suffix (l := c :: text) isBlank).length_le
      simp only [Option.some.injEq, Prod.mk.injEq] at h
      rw [← h.2]
      omega
    · simp only [Option.map_eq_some_iff, Prod.exists, Prod.mk.injEq] at h
      obtain ⟨_, _, hu, _, rfl⟩ := h
      have := ih hu
      simp
      omega

theorem length_le_of_expression? {closing text expression rest : Text}
    (h : expression? closing text = some (expression, rest)) : rest.length ≤ text.length := by
  have hd := (List.dropWhile_suffix (l := text) isBlank).length_le
  unfold expression? at h
  simp only at h
  split at h
  · rename_i found hf
    split at hf
    · simp at hf
    · rename_i c body hb
      simp only [Option.map_eq_some_iff, Prod.exists] at hf
      obtain ⟨_, _, hu, rfl⟩ := hf
      have := length_le_of_upTo? hu
      rw [hb] at hd
      simp only [Option.some.injEq, Prod.mk.injEq] at h
      rw [← h.2]
      simp at hd
      omega
  · split at h
    · rename_i ha
      have := length_le_of_after? ha
      simp only [Option.some.injEq, Prod.mk.injEq] at h
      rw [← h.2]
      omega
    · simp at h

theorem length_lt_of_binding? {text rest : Text} {binding : Binding}
    (h : binding? text = some (binding, rest)) : rest.length < text.length := by
  have key {isEscaped : Bool} {opening closing : Text} (ho : 0 < opening.length)
      (h : bindingWith? isEscaped opening closing text = some (binding, rest)) :
      rest.length < text.length := by
    simp only [bindingWith?, Option.bind_eq_some_iff, Option.map_eq_some_iff, Prod.exists,
      Prod.mk.injEq] at h
    obtain ⟨inside, hi, _, _, he, _, rfl⟩ := h
    have := length_le_of_expression? he
    rw [after?_eq_some_iff.1 hi, List.length_append]
    omega
  unfold binding? at h
  split at h
  · rename_i found hf
    rw [Option.some.injEq] at h
    exact key (by decide) (h ▸ hf)
  · exact key (by decide) h

/-- Cuts a template into its parts. -/
def parts (content : Text) : List Part :=
  match content with
  | [] => []
  | c :: rest =>
    match _h : binding? (c :: rest) with
    | some (binding, after) => .bound binding :: parts after
    | none => .copied c :: parts rest
termination_by content.length
decreasing_by
  · exact length_lt_of_binding? _h
  · simp

end ComponentMarkup.Template
