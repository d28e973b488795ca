import ComponentMarkup.Json.Literal
import ComponentMarkup.Reference
import ComponentMarkup.Script
import ComponentMarkup.Stylesheet.Scope

/-!
# Style tags

A style is written as a style tag, or as a script that puts a style element into the document. A
style with an external source is always written as a script, which then puts a link there. Styles
that cannot be read are written as they are, with white space collapsed. A style without text and
source is not written.

Texts stand in a script as string literals in which no `</` occurs, so that nothing in them closes
the script tag.
-/

namespace ComponentMarkup.Style

open Text

/-- How a style reaches the page. -/
inductive Output where
  | tag
  | script
  deriving DecidableEq, Repr

/-- What is known of a style when it is written. -/
structure Input where
  attributes : Attributes
  content : Text
  id : Text
  isScoped : Bool
  deriving DecidableEq, Repr

/-- How styles are written, and what stands before sources that are no remote references. -/
structure Renderer where
  output : Output
  basePath : Text
  deriving DecidableEq, Repr

def scopedName : Text := "scoped".toList
def typeName : Text := "type".toList
def relName : Text := "rel".toList
def hrefName : Text := "href".toList
def classMarkName : Text := "data-rain-class".toList

/-- A style with an external source. -/
def Input.isExternal (input : Input) : Bool := Dict.contains input.attributes Script.srcName

/-- The text of the style sheet as it is written. -/
def Input.css (input : Input) : Text :=
  let written :=
    if input.isScoped then Stylesheet.scope .byClass input.id input.content
    else Stylesheet.normalize input.content
  match written with
  | .ok css => css
  | .error _ => collapse input.content

/-- A source below the base path, with one slash between the two. -/
def Renderer.locate (renderer : Renderer) (src : Text) : Text :=
  if renderer.basePath.isEmpty || Reference.isRemote src then src
  else
    (renderer.basePath.reverse.dropWhile (· = '/')).reverse ++ '/' :: src.dropWhile (· = '/')

/-- The attributes of the style element. -/
def Renderer.attributes (renderer : Renderer) (input : Input) : Attributes :=
  let attributes := Dict.erase input.attributes scopedName
  let attributes := match Dict.find? attributes Script.srcName with
    | some src => Dict.insert attributes Script.srcName (renderer.locate src)
    | none => attributes
  let attributes := match Dict.find? attributes typeName with
    | some (_ :: _) => attributes
    | _ => Dict.insert attributes typeName "text/css".toList
  if input.isScoped && !Dict.contains attributes classMarkName then
    Dict.insert attributes classMarkName input.id
  else attributes

/-- The attributes of the link that stands for an external style. -/
def linkAttributes (attributes : Attributes) : Attributes :=
  let attributes := match Dict.find? attributes Script.srcName with
    | some src => Dict.insert (Dict.erase attributes Script.srcName) hrefName src
    | none => attributes
  if Dict.contains attributes relName then attributes
  else Dict.insert attributes relName "stylesheet".toList

/-- A text as a string literal without `</`. -/
def scriptLiteral (text : Text) : Text :=
  replaceAll ['<', '/'] ['<', '\\', '/'] (Json.quote text)

/-- The statement that gives the new element an attribute. -/
def setter (pair : Text × Text) : Text :=
  "elm.setAttribute(".toList ++ scriptLiteral pair.1 ++ ", ".toList
    ++ scriptLiteral pair.2 ++ ");".toList

/-- The statements that put the style sheet into the new element. -/
def filling (css : Text) : Text :=
  "var styles = ".toList ++ scriptLiteral css
    ++ ";if (elm.styleSheet) \x7b elm.styleSheet.cssText = styles; \x7d".toList
    ++ " else \x7b elm.appendChild(document.createTextNode(styles)); \x7d".toList

/-- The statements that make an element, give it its attributes and text, and put it into the
document. -/
def injection (element : Text) (attributes : Attributes) (filling : Text) : Text :=
  "(function() \x7b var elm = document.createElement(\"".toList ++ element ++ "\");".toList
    ++ attributes.flatMap setter ++ filling
    ++ "var s = document.getElementsByTagName(\"".toList ++ element ++ "\");".toList
    ++ "if (s.length) \x7b s[0].parentNode.appendChild(elm); \x7d".toList
    ++ " else \x7b var head = document.getElementsByTagName(\"head\");".toList
    ++ " head.length && head[0].appendChild(elm); \x7d \x7d());".toList

/-- Writes the style as a script. -/
def Renderer.renderScript (renderer : Renderer) (input : Input) : Text :=
  let attributes := renderer.attributes input
  if input.isExternal then
    Script.render ⟨[], injection "link".toList (linkAttributes attributes) [], input.id⟩
  else if input.css.isEmpty then []
  else Script.render ⟨[], injection "style".toList attributes (filling input.css), input.id⟩

/-- Writes the style as a tag. -/
def Renderer.renderTag (renderer : Renderer) (input : Input) : Text :=
  if input.css.isEmpty then []
  else
    "<style".toList ++ Attributes.render (renderer.attributes input) ++ '>' :: input.css
      ++ "</style>".toList

/-- Writes the style. -/
def Renderer.render (renderer : Renderer) (input : Input) : Text :=
  if renderer.output = .script || input.isExternal then renderer.renderScript input
  else renderer.renderTag input

end ComponentMarkup.Style
