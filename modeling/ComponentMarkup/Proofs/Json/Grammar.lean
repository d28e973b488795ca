import ComponentMarkup.Proofs.Json.Spell

/-!
# The grammar of JSON texts

A document may be written in many ways. White space may stand around every part, a character of a
string may be escaped, the digits of a code may be of either case, and an exponent has two letters.
The grammar says which texts these are, without a word about tokens or machines. Whatever it
derives for a document is read as that document.
-/

namespace ComponentMarkup.Json

mutual

/-- How a document is written. -/
inductive Document.Writes : Document → Text → Prop
  | null : Writes .null "null".toList
  | bool (value : Bool) : Writes (.bool value) (Record.renderBool value)
  | number {number : Number} {text : Text} (h : number.Writes text) : Writes (.number number) text
  | string {literal : Literal} {text : Text} (h : literal.Writes text) :
      Writes (.string literal) (Literal.quoted text)
  | emptyArray {text : Text} (h : IsSpacing text) : Writes (.array []) ('[' :: text ++ [']'])
  | array {items : List Document} {text : Text} (h : WritesItems items text) :
      Writes (.array items) ('[' :: text ++ [']'])
  | emptyObject {text : Text} (h : IsSpacing text) :
      Writes (.object []) ('\x7b' :: text ++ ['\x7d'])
  | object {members : List (Literal × Document)} {text : Text} (h : WritesMembers members text) :
      Writes (.object members) ('\x7b' :: text ++ ['\x7d'])

/-- How the items of an array are written, at least one. -/
inductive Document.WritesItems : List Document → Text → Prop
  | last {document : Document} {before text after : Text} (hbefore : IsSpacing before)
      (h : Writes document text) (hafter : IsSpacing after) :
      WritesItems [document] (before ++ text ++ after)
  | cons {document : Document} {documents : List Document} {before text after rest : Text}
      (hbefore : IsSpacing before) (h : Writes document text) (hafter : IsSpacing after)
      (hrest : WritesItems documents rest) :
      WritesItems (document :: documents) (before ++ text ++ after ++ ',' :: rest)

/-- How the members of an object are written, at least one. -/
inductive Document.WritesMembers : List (Literal × Document) → Text → Prop
  | last {key : Literal} {document : Document} {before name middle gap text after : Text}
      (hbefore : IsSpacing before) (hname : key.Writes name) (hmiddle : IsSpacing middle)
      (hgap : IsSpacing gap) (h : Writes document text) (hafter : IsSpacing after) :
      WritesMembers [(key, document)]
        (before ++ Literal.quoted name ++ middle ++ ':' :: (gap ++ text ++ after))
  | cons {key : Literal} {document : Document} {members : List (Literal × Document)}
      {before name middle gap text after rest : Text} (hbefore : IsSpacing before)
      (hname : key.Writes name) (hmiddle : IsSpacing middle) (hgap : IsSpacing gap)
      (h : Writes document text) (hafter : IsSpacing after) (hrest : WritesMembers members rest) :
      WritesMembers ((key, document) :: members)
        (before ++ Literal.quoted name ++ middle ++ ':' :: (gap ++ text ++ after) ++ ',' :: rest)

end

/-- The texts of a document: white space may stand around it. -/
inductive Document.IsText : Document → Text → Prop
  | mk {document : Document} {before text after : Text} (hbefore : IsSpacing before)
      (h : Document.Writes document text) (hafter : IsSpacing after) :
      IsText document (before ++ text ++ after)

mutual

theorem Document.Writes.spells {document : Document} {text : Text} (h : document.Writes text) :
    Spells text document := by
  cases h with
  | null => exact spells_null
  | bool value => exact spells_renderBool value
  | number h => exact h.spells
  | string h => exact h.spells
  | emptyArray h => exact spells_emptyArray h
  | array h => exact spells_array h.spells
  | emptyObject h => exact spells_emptyObject h
  | object h => exact spells_object h.spells

theorem Document.WritesItems.spells {documents : List Document} {text : Text}
    (h : Document.WritesItems documents text) : SpellsItems text documents := by
  cases h with
  | last hbefore h hafter => exact h.spells.last_item hbefore hafter
  | cons hbefore h hafter hrest => exact h.spells.cons_item hbefore hafter hrest.spells

theorem Document.WritesMembers.spells {members : List (Literal × Document)} {text : Text}
    (h : Document.WritesMembers members text) : SpellsMembers text members := by
  cases h with
  | last hbefore hname hmiddle hgap h hafter =>
    exact h.spells.last_member hbefore hname.tokens?_append hmiddle hgap hafter
  | cons hbefore hname hmiddle hgap h hafter hrest =>
    exact h.spells.cons_member hbefore hname.tokens?_append hmiddle hgap hafter hrest.spells

end

/-- Every text of a document is read as it. -/
theorem Document.IsText.read? {document : Document} {text : Text} (h : document.IsText text) :
    Document.read? text = some document := by
  obtain ⟨hbefore, h, hafter⟩ := h
  exact h.spells.read?_spaced hbefore hafter

end ComponentMarkup.Json
