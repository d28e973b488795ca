import ComponentMarkup.Text.Basic

/-!
# Text inside markup

A text is put into markup with its five special characters written as references, so that it
opens no tag and closes no attribute value.
-/

namespace ComponentMarkup.Text

/-- How a character is written inside markup. -/
def htmlReference (c : Char) : Text :=
  if c = '&' then "&amp;".toList
  else if c = '<' then "&lt;".toList
  else if c = '>' then "&gt;".toList
  else if c = '"' then "&quot;".toList
  else if c = '\'' then "&#39;".toList
  else [c]

/-- A text as it is written inside markup. -/
def escapeHtml (text : Text) : Text := text.flatMap htmlReference

/-- A value between double quotes: each double quote becomes a reference. -/
def escapeQuotes (text : Text) : Text :=
  text.flatMap fun c => if c = '"' then "&quot;".toList else [c]

end ComponentMarkup.Text
