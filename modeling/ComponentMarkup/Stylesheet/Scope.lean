import ComponentMarkup.Stylesheet.Read

/-!
# Scoped style sheets

A style sheet is scoped to an element by putting the element's class or id in front of every
selector, so that the rules apply to its descendants alone. Scoped and unscoped sheets are written
with one space for each run of white space. A blank text is written as the empty one.
-/

namespace ComponentMarkup.Stylesheet

open Text

/-- Whether an element is named by its class or by its id. -/
inductive ScopeMode where
  | byClass
  | byId
  deriving DecidableEq, Repr

/-- The selector of the element itself. -/
def ScopeMode.token : ScopeMode → Text → Text
  | byClass, id => '.' :: id
  | byId, id => '#' :: id

/-- Puts a token and a space in front of every selector. -/
def Rule.scope (token : Text) (rule : Rule) : Rule :=
  { rule with selectors := rule.selectors.map fun selector => token ++ ' ' :: selector }

/-- Puts a token and a space in front of every selector of every rule. -/
def scopeTo (token : Text) (sheet : Stylesheet) : Stylesheet :=
  sheet.mapRules fun _ rule => rule.scope token

/-- Scopes the style sheet of a text to an element. -/
def scope (mode : ScopeMode) (id text : Text) : Except ReadError Text :=
  if isAllBlank text then .ok []
  else (read text).map fun sheet => collapse (sheet.scopeTo (mode.token id)).render

/-- Writes the style sheet of a text anew. -/
def normalize (text : Text) : Except ReadError Text :=
  if isAllBlank text then .ok []
  else (read text).map fun sheet => collapse sheet.render

end ComponentMarkup.Stylesheet
