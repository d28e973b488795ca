import ComponentMarkup.Text.Basic

/-!
# Style sheets

A style sheet is a list of items: rules, groups such as `@media` that hold further items, and
everything else as it stands. Rules are numbered in the order in which they are read, those inside
groups included; a selector is named by the number of its rule and its place in it.
-/

namespace ComponentMarkup

namespace Stylesheet

/-- Selectors and the text of the declarations between the braces. -/
structure Rule where
  selectors : List Text
  declarations : Text
  deriving DecidableEq, Repr

inductive Item where
  | rule (rule : Rule)
  | group (prelude : Text) (items : List Item)
  | verbatim (text : Text)
  deriving Repr

end Stylesheet

structure Stylesheet where
  items : List Stylesheet.Item
  deriving Repr

namespace Stylesheet

/-- Changes one selector; a place out of range changes nothing. -/
def Rule.setSelector (rule : Rule) (place : Nat) (text : Text) : Rule :=
  { rule with selectors := rule.selectors.set place text }

def Rule.render (rule : Rule) : Text :=
  Text.joinWith [','] rule.selectors ++ [' ', '\x7b'] ++ rule.declarations ++ ['\x7d']

mutual

/-- The rules of an item from left to right. -/
def Item.rules : Item → List Rule
  | .rule rule => [rule]
  | .group _ items => rulesOf items
  | .verbatim _ => []

/-- The rules of a list of items from left to right. -/
def rulesOf : List Item → List Rule
  | [] => []
  | item :: rest => item.rules ++ rulesOf rest

end

mutual

/-- Changes each rule of an item, given its number; `start` rules stand before the item. -/
def Item.mapRules (f : Nat → Rule → Rule) (start : Nat) : Item → Item
  | .rule rule => .rule (f start rule)
  | .group prelude items => .group prelude (mapRulesOf f start items)
  | .verbatim text => .verbatim text

/-- Changes each rule of a list of items, given its number. -/
def mapRulesOf (f : Nat → Rule → Rule) (start : Nat) : List Item → List Item
  | [] => []
  | item :: rest => item.mapRules f start :: mapRulesOf f (start + item.rules.length) rest

end

mutual

def Item.render : Item → Text
  | .rule rule => rule.render
  | .group prelude items => prelude ++ [' ', '\x7b'] ++ renderItems items ++ ['\x7d']
  | .verbatim text => text

/-- The items on lines of their own. -/
def renderItems : List Item → Text
  | [] => []
  | [item] => item.render
  | item :: rest => item.render ++ '\n' :: renderItems rest

end

/-- All rules from left to right, those inside groups included. -/
def rules (sheet : Stylesheet) : List Rule := rulesOf sheet.items

/-- Changes each rule, given its number. -/
def mapRules (f : Nat → Rule → Rule) (sheet : Stylesheet) : Stylesheet :=
  ⟨mapRulesOf f 0 sheet.items⟩

def render (sheet : Stylesheet) : Text := renderItems sheet.items

/-- Whether a rule has this number and a selector at this place. -/
def hasSelector (sheet : Stylesheet) (rule place : Nat) : Bool :=
  match sheet.rules[rule]? with
  | some rule => place < rule.selectors.length
  | none => false

/-- Gives one selector another text. -/
def setSelector (sheet : Stylesheet) (rule place : Nat) (text : Text) : Stylesheet :=
  sheet.mapRules fun number r => if number = rule then r.setSelector place text else r

end Stylesheet

end ComponentMarkup
