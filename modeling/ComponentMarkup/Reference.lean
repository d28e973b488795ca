import ComponentMarkup.Text.Blank

/-!
# Remote references

A reference that begins with a scheme, as in `https:`, or with two slashes leads out of the file
tree. Every other reference names a file.
-/

namespace ComponentMarkup.Reference

open Text

def isSchemeChar (c : Char) : Bool := c.isAlphanum || c = '+' || c = '.' || c = '-'

/-- Leads out of the file tree; white space around the reference does not count. -/
def isRemote (reference : Text) : Bool :=
  match trim reference with
  | '/' :: '/' :: _ => true
  | c :: rest => c.isAlpha && (rest.dropWhile isSchemeChar).head? = some ':'
  | [] => false

end ComponentMarkup.Reference
