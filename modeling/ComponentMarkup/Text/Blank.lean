import ComponentMarkup.Text.Basic

/-!
# White space

Three classes of white space are in use. Inside a tag it is the ASCII white space of markup,
between the rules of a style sheet it is the layout characters, and wherever a text is trimmed it
is every character with the Unicode property White_Space. Each class contains the one before it
in this list: layout, ASCII, Unicode.
-/

namespace ComponentMarkup.Text

/-- White space of markup: space, tab, line feed, form feed and carriage return. -/
def isMarkupSpace (c : Char) : Bool :=
  c = ' ' || c = '\t' || c = '\n' || c = '\x0c' || c = '\r'

/-- Layout of a style sheet: space, tab, line feed and carriage return. -/
def isLayout (c : Char) : Bool :=
  c = ' ' || c = '\t' || c = '\n' || c = '\r'

/-- The Unicode property White_Space. -/
def isBlank (c : Char) : Bool :=
  let n := c.toNat
  (9 ≤ n && n ≤ 13) || n = 0x20 || n = 0x85 || n = 0xA0 || n = 0x1680
    || (0x2000 ≤ n && n ≤ 0x200A) || n = 0x2028 || n = 0x2029 || n = 0x202F
    || n = 0x205F || n = 0x3000

theorem isBlank_of_isMarkupSpace {c : Char} (h : isMarkupSpace c = true) : isBlank c = true := by
  simp only [isMarkupSpace, Bool.or_eq_true, decide_eq_true_eq] at h
  rcases h with (((rfl | rfl) | rfl) | rfl) | rfl <;> decide

theorem isMarkupSpace_of_isLayout {c : Char} (h : isLayout c = true) :
    isMarkupSpace c = true := by
  simp only [isLayout, Bool.or_eq_true, decide_eq_true_eq] at h
  rcases h with ((rfl | rfl) | rfl) | rfl <;> decide

/-- Leaves out white space at both ends. -/
def trim (text : Text) : Text := trimBy isBlank text

/-- Nothing but white space. -/
def isAllBlank (text : Text) : Bool := text.all isBlank

/-- One space for each run of white space; a run at the front has begun if `inRun`. -/
def collapseRuns : (inRun : Bool) → Text → Text
  | _, [] => []
  | inRun, c :: rest =>
    if isBlank c then
      if inRun then collapseRuns true rest else ' ' :: collapseRuns true rest
    else c :: collapseRuns false rest

/-- One space between words and none at the ends. -/
def collapse (text : Text) : Text := trim (collapseRuns false text)

end ComponentMarkup.Text
