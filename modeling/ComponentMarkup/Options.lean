import ComponentMarkup.Json.Record
import ComponentMarkup.Segment
import ComponentMarkup.Style

/-!
# Options

The options of a site are read from a JSON record in which every field may be missing, and are
written with all fields. Narrowing them to one kind of segment turns the two others off.
-/

namespace ComponentMarkup

open Json

/-- How much a cache keeps: a number of entries, or entries of an age in seconds. -/
structure CacheLimits where
  maxEntries : Option Nat
  maxAgeSeconds : Option Nat
  deriving DecidableEq, Repr

structure Options where
  /-- The extension of component files. -/
  extension : Text
  /-- Scope every style, not only those that ask for it. -/
  isScoped : Bool
  /-- Wrap every template, whether its style is scoped or not. -/
  isTemplateScoped : Bool
  template : Bool
  script : Bool
  style : Bool
  styleOutput : Style.Output
  cache : CacheLimits
  /-- Stands before sources of styles that are no remote references. -/
  basePath : Text
  /-- How deep components may be nested. -/
  maxDepth : Nat
  deriving DecidableEq, Repr

namespace Options

def default : Options :=
  { extension := "rain".toList
    isScoped := false
    isTemplateScoped := false
    template := true
    script := true
    style := true
    styleOutput := .tag
    cache := ⟨none, none⟩
    basePath := []
    maxDepth := 64 }

/-- The segments of this kind are written. -/
def isEnabled (options : Options) : SegmentKind → Bool
  | .template => options.template
  | .script => options.script
  | .style => options.style

/-- The options with every other kind of segment turned off. -/
def only (options : Options) (kind : SegmentKind) : Options :=
  { options with
    template := kind = .template
    script := kind = .script
    style := kind = .style }

/-! ## Reading and writing -/

/-- Numbers are kept in 64 bits. -/
def natBound : Nat := Nat.pow 2 64

def names : List Text :=
  ["extension".toList, "scoped".toList, "templateScoped".toList, "template".toList,
    "script".toList, "style".toList, "styleOutput".toList, "cache".toList, "url".toList,
    "maxDepth".toList]

def enabledName : Text := "enabled".toList

def cacheNames : List Text := ["maxEntries".toList, "maxAgeSecs".toList]

def basePathName : Text := "basePath".toList

def readEnabled? (document : Document) : Option Bool :=
  match Record.fields? [enabledName] document with
  | some [enabled] => Record.fieldOr true Document.bool? enabled
  | _ => none

def outputName : Style.Output → Text
  | .tag => "tag".toList
  | .script => "script".toList

def outputOfName? (name : Text) : Option Style.Output :=
  [Style.Output.tag, .script].find? fun output => outputName output = name

/-- An output is written as its name, or as an object with null under its name. -/
def readOutput? : Document → Option Style.Output
  | .string literal => (Literal.text? literal).bind outputOfName?
  | .object [(literal, .null)] => (Literal.text? literal).bind outputOfName?
  | _ => none

def readCache? (document : Document) : Option CacheLimits :=
  match Record.fields? cacheNames document with
  | some [maxEntries, maxAge] => do
    let limit := Record.fieldOr none (Document.optional? (Document.nat? natBound))
    some ⟨← limit maxEntries, ← limit maxAge⟩
  | _ => none

def readBasePath? (document : Document) : Option Text :=
  match Record.fields? [basePathName] document with
  | some [basePath] => Record.fieldOr [] Document.text? basePath
  | _ => none

def ofDocument? (document : Document) : Option Options :=
  match Record.fields? names document with
  | some [extension, isScoped, isTemplateScoped, template, script, style, styleOutput, cache, url,
      maxDepth] => do
    some
      { extension := ← Record.fieldOr default.extension Document.text? extension
        isScoped := ← Record.fieldOr default.isScoped Document.bool? isScoped
        isTemplateScoped :=
          ← Record.fieldOr default.isTemplateScoped Document.bool? isTemplateScoped
        template := ← Record.fieldOr default.template readEnabled? template
        script := ← Record.fieldOr default.script readEnabled? script
        style := ← Record.fieldOr default.style readEnabled? style
        styleOutput := ← Record.fieldOr default.styleOutput readOutput? styleOutput
        cache := ← Record.fieldOr default.cache readCache? cache
        basePath := ← Record.fieldOr default.basePath readBasePath? url
        maxDepth := ← Record.fieldOr default.maxDepth (Document.nat? natBound) maxDepth }
  | _ => none

/-- Reads options. -/
def read? (text : Text) : Option Options := (Document.read? text).bind ofDocument?

def renderEnabled (enabled : Bool) : Text :=
  Record.render [(enabledName, Record.renderBool enabled)]

def renderCache (limits : CacheLimits) : Text :=
  Record.render (cacheNames.zip
    [Record.renderOptional Record.renderNat limits.maxEntries,
      Record.renderOptional Record.renderNat limits.maxAgeSeconds])

/-- Writes all options. -/
def render (options : Options) : Text :=
  Record.render (names.zip
    [quote options.extension, Record.renderBool options.isScoped,
      Record.renderBool options.isTemplateScoped, renderEnabled options.template,
      renderEnabled options.script, renderEnabled options.style,
      quote (outputName options.styleOutput), renderCache options.cache,
      Record.render [(basePathName, quote options.basePath)], Record.renderNat options.maxDepth])

end Options

end ComponentMarkup
