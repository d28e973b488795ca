import ComponentMarkup.Attributes

/-!
# Script tags

A script is written as one tag around its trimmed text. A script without text is written only if
its attributes name a source.
-/

namespace ComponentMarkup.Script

open Text

/-- What is known of a script when it is written. -/
structure Input where
  attributes : Attributes
  content : Text
  id : Text
  deriving DecidableEq, Repr

def srcName : Text := "src".toList

/-- Writes the script tag. -/
def render (input : Input) : Text :=
  let content := trim input.content
  if content.isEmpty && !Dict.contains input.attributes srcName then []
  else
    "<script".toList ++ Attributes.render input.attributes ++ '>' :: content
      ++ "</script>".toList

end ComponentMarkup.Script
