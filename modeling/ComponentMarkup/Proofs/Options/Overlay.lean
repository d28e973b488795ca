import ComponentMarkup.Options
import ComponentMarkup.Proofs.Json.Fields
import ComponentMarkup.Proofs.Json.Grammar

/-!
# Options over the defaults

An object may write any choice of the fields of options, the fields of its inner objects included.
The fields may come in any order, with any other members between them, and in any text of the
object. What is read are the options in the fields that are chosen and the defaults in all others.
Written options choose all fields and are read back as they were.
-/

namespace ComponentMarkup.Options

open Json

/-! ## Choices of fields -/

/-- The fields of options. An inner object stands for the fields that it holds. -/
inductive Field where
  | extension
  | isScoped
  | isTemplateScoped
  | template
  | script
  | style
  | styleOutput
  | maxEntries
  | maxAgeSeconds
  | basePath
  | maxDepth
  deriving DecidableEq, Repr

/-- The options in the fields that are chosen, and the defaults in all others. -/
def overlay (chosen : Field → Bool) (options : Options) : Options :=
  { extension := if chosen .extension then options.extension else default.extension
    isScoped := if chosen .isScoped then options.isScoped else default.isScoped
    isTemplateScoped :=
      if chosen .isTemplateScoped then options.isTemplateScoped else default.isTemplateScoped
    template := if chosen .template then options.template else default.template
    script := if chosen .script then options.script else default.script
    style := if chosen .style then options.style else default.style
    styleOutput := if chosen .styleOutput then options.styleOutput else default.styleOutput
    cache :=
      { maxEntries :=
          if chosen .maxEntries then options.cache.maxEntries else default.cache.maxEntries
        maxAgeSeconds :=
          if chosen .maxAgeSeconds then options.cache.maxAgeSeconds
          else default.cache.maxAgeSeconds }
    basePath := if chosen .basePath then options.basePath else default.basePath
    maxDepth := if chosen .maxDepth then options.maxDepth else default.maxDepth }

@[simp] theorem overlay_all (options : Options) : overlay (fun _ ↦ true) options = options := rfl

/-- The numbers fit the bits that they are kept in. -/
structure Fits (options : Options) : Prop where
  maxEntries : ∀ n ∈ options.cache.maxEntries, n < natBound
  maxAgeSeconds : ∀ n ∈ options.cache.maxAgeSeconds, n < natBound
  maxDepth : options.maxDepth < natBound

section Writing

variable (chosen : Field → Bool) (options : Options)

/-- An inner object that turns a kind of segment on or off. -/
def WritesEnabled (field : Field) (enabled : Bool) (members : List (Literal × Document)) : Prop :=
  WritesField members "enabled".toList (· = .bool enabled) (chosen field)

structure WritesCache (members : List (Literal × Document)) : Prop where
  maxEntries : WritesField members "maxEntries".toList
    (· = documentOfOptional options.cache.maxEntries) (chosen .maxEntries)
  maxAgeSeconds : WritesField members "maxAgeSecs".toList
    (· = documentOfOptional options.cache.maxAgeSeconds) (chosen .maxAgeSeconds)

def WritesBasePath (members : List (Literal × Document)) : Prop :=
  WritesField members "basePath".toList (IsString options.basePath) (chosen .basePath)

/-- The members of an object are the fields that are chosen, as the options have them, with other
members anywhere between them. -/
structure Writes (members : List (Literal × Document)) : Prop where
  keys : HasKeys members
  extension : WritesField members "extension".toList (IsString options.extension)
    (chosen .extension)
  isScoped : WritesField members "scoped".toList (· = .bool options.isScoped) (chosen .isScoped)
  isTemplateScoped : WritesField members "templateScoped".toList
    (· = .bool options.isTemplateScoped) (chosen .isTemplateScoped)
  template : WritesNested members "template".toList
    (WritesEnabled chosen .template options.template) (chosen .template)
  script : WritesNested members "script".toList
    (WritesEnabled chosen .script options.script) (chosen .script)
  style : WritesNested members "style".toList
    (WritesEnabled chosen .style options.style) (chosen .style)
  styleOutput : WritesField members "styleOutput".toList
    (IsString (outputName options.styleOutput)) (chosen .styleOutput)
  cache : WritesNested members "cache".toList (WritesCache chosen options)
    (chosen .maxEntries || chosen .maxAgeSeconds)
  url : WritesNested members "url".toList (WritesBasePath chosen options) (chosen .basePath)
  maxDepth : WritesField members "maxDepth".toList
    (· = .number (Number.ofNat options.maxDepth)) (chosen .maxDepth)

end Writing

/-! ## Reading -/

section Reading

variable {chosen : Field → Bool} {options : Options} {inner members : List (Literal × Document)}

theorem readOutput?_of_isString {output : Style.Output} {document : Document}
    (h : IsString (outputName output) document) : readOutput? document = some output := by
  obtain ⟨h⟩ := h
  rw [readOutput?, h, Option.bind_some]
  cases output <;> rfl

theorem readEnabled?_of_writes {field : Field} {enabled : Bool} (hkeys : HasKeys inner)
    (h : WritesEnabled chosen field enabled inner) :
    readEnabled? (.object inner) = some (if chosen field then enabled else true) := by
  have hfields := fields?_object (List.nodup_singleton enabledName) hkeys
    (List.forall_mem_singleton.2 h.length_le_one)
  rw [readEnabled?, hfields]
  exact h.fieldOr_head? fun _ ↦ bool?_of_eq

/-- A kind of segment is on where nothing is said about it. -/
theorem fieldOr_readEnabled? {field : Field} {enabled missing : Bool} {name : Text}
    (h : WritesNested members name (WritesEnabled chosen field enabled) (chosen field))
    (hmissing : missing = true) :
    Record.fieldOr missing readEnabled? (documentsUnder name members).head? =
      some (if chosen field then enabled else missing) := by
  subst hmissing
  exact h.fieldOr_head? (fun _ ↦ readEnabled?_of_writes) fun hleft ↦ by rw [hleft]; rfl

theorem readBasePath?_of_writes (hkeys : HasKeys inner) (h : WritesBasePath chosen options inner) :
    readBasePath? (.object inner) = some (overlay chosen options).basePath := by
  have hfields := fields?_object (List.nodup_singleton basePathName) hkeys
    (List.forall_mem_singleton.2 h.length_le_one)
  rw [readBasePath?, hfields]
  exact h.fieldOr_head? fun _ ↦ IsString.text?

theorem readCache?_of_writes (hfits : options.Fits) (hkeys : HasKeys inner)
    (h : WritesCache chosen options inner) :
    readCache? (.object inner) = some (overlay chosen options).cache := by
  have honce : ∀ name ∈ cacheNames, (documentsUnder name inner).length ≤ 1 := by
    simpa [cacheNames] using ⟨h.maxEntries.length_le_one, h.maxAgeSeconds.length_le_one⟩
  rw [readCache?, fields?_object (by decide) hkeys honce]
  simp only [cacheNames, List.map_cons, List.map_nil]
  rw [h.maxEntries.fieldOr_head? fun _ ↦ optional?_of_eq hfits.maxEntries,
    h.maxAgeSeconds.fieldOr_head? fun _ ↦ optional?_of_eq hfits.maxAgeSeconds]
  rfl

theorem Writes.once (h : Writes chosen options members) :
    ∀ name ∈ names, (documentsUnder name members).length ≤ 1 := by
  simp only [names, List.forall_mem_cons]
  exact ⟨h.extension.length_le_one, h.isScoped.length_le_one, h.isTemplateScoped.length_le_one,
    h.template.length_le_one, h.script.length_le_one, h.style.length_le_one,
    h.styleOutput.length_le_one, h.cache.length_le_one, h.url.length_le_one,
    h.maxDepth.length_le_one, List.forall_mem_nil _⟩

/-- An object that writes the fields that are chosen is read as the options over the defaults. -/
theorem ofDocument?_of_writes (hfits : options.Fits) (h : Writes chosen options members) :
    ofDocument? (.object members) = some (overlay chosen options) := by
  have hcache (hleft : (chosen .maxEntries || chosen .maxAgeSeconds) = false) :
      default.cache = (overlay chosen options).cache := by
    obtain ⟨hentries, hage⟩ := Bool.or_eq_false_iff.1 hleft
    rw [overlay, hentries, hage]
    rfl
  have hurl (hleft : chosen .basePath = false) :
      default.basePath = (overlay chosen options).basePath := by
    rw [overlay, hleft]
    rfl
  rw [ofDocument?, fields?_object (by decide) h.keys h.once]
  simp only [names, List.map_cons, List.map_nil]
  rw [h.extension.fieldOr_head? fun _ ↦ IsString.text?,
    h.isScoped.fieldOr_head? fun _ ↦ bool?_of_eq,
    h.isTemplateScoped.fieldOr_head? fun _ ↦ bool?_of_eq,
    fieldOr_readEnabled? h.template (rfl : default.template = true),
    fieldOr_readEnabled? h.script (rfl : default.script = true),
    fieldOr_readEnabled? h.style (rfl : default.style = true),
    h.styleOutput.fieldOr_head? fun _ ↦ readOutput?_of_isString,
    h.cache.fieldOr_head? (fun _ ↦ readCache?_of_writes hfits) hcache,
    h.url.fieldOr_head? (fun _ ↦ readBasePath?_of_writes) hurl,
    h.maxDepth.fieldOr_head? fun _ ↦ nat?_of_eq hfits.maxDepth]
  rfl

end Reading

/-! ## Written options -/

section Rendered

/-- The fields of written options. -/
def fieldsOf (options : Options) : List (Text × Document) :=
  names.zip
    [.string (literalOf options.extension), .bool options.isScoped, .bool options.isTemplateScoped,
      .object (membersOf [(enabledName, .bool options.template)]),
      .object (membersOf [(enabledName, .bool options.script)]),
      .object (membersOf [(enabledName, .bool options.style)]),
      .string (literalOf (outputName options.styleOutput)),
      .object (membersOf (cacheNames.zip [documentOfOptional options.cache.maxEntries,
        documentOfOptional options.cache.maxAgeSeconds])),
      .object (membersOf [(basePathName, .string (literalOf options.basePath))]),
      .number (Number.ofNat options.maxDepth)]

variable (options : Options)

/-- Written options choose all fields. -/
theorem writes_fieldsOf : Writes (fun _ ↦ true) options (membersOf options.fieldsOf) := by
  have hnames : names.Nodup := by decide
  have hcacheNames : cacheNames.Nodup := by decide
  have hunder {name : Text} {document : Document} (place : Nat)
      (h : options.fieldsOf[place]? = some (name, document)) :
      documentsUnder name (membersOf options.fieldsOf) = [document] :=
    documentsUnder_membersOf hnames (List.mem_of_getElem? h)
  have henabled (field : Field) (enabled : Bool) :
      WritesEnabled (fun _ ↦ true) field enabled (membersOf [(enabledName, .bool enabled)]) :=
    .chosen rfl (documentsUnder_singleton _ _)
  have hcache : WritesCache (fun _ ↦ true) options (membersOf (cacheNames.zip
      [documentOfOptional options.cache.maxEntries,
        documentOfOptional options.cache.maxAgeSeconds])) :=
    ⟨.chosen rfl (documentsUnder_membersOf hcacheNames (by simp [cacheNames])),
      .chosen rfl (documentsUnder_membersOf hcacheNames (by simp [cacheNames]))⟩
  have hurl : WritesBasePath (fun _ ↦ true) options
      (membersOf [(basePathName, .string (literalOf options.basePath))]) :=
    .chosen ⟨Literal.text?_literalOf _⟩ (documentsUnder_singleton _ _)
  exact
    { keys := hasKeys_membersOf _
      extension := .chosen ⟨Literal.text?_literalOf _⟩ (hunder 0 rfl)
      isScoped := .chosen rfl (hunder 1 rfl)
      isTemplateScoped := .chosen rfl (hunder 2 rfl)
      template := .object (hasKeys_membersOf _) (henabled _ _) (hunder 3 rfl)
      script := .object (hasKeys_membersOf _) (henabled _ _) (hunder 4 rfl)
      style := .object (hasKeys_membersOf _) (henabled _ _) (hunder 5 rfl)
      styleOutput := .chosen ⟨Literal.text?_literalOf _⟩ (hunder 6 rfl)
      cache := .object (hasKeys_membersOf _) hcache (hunder 7 rfl)
      url := .object (hasKeys_membersOf _) hurl (hunder 8 rfl)
      maxDepth := .chosen rfl (hunder 9 rfl) }

theorem spells_renderEnabled (enabled : Bool) :
    Spells (renderEnabled enabled) (.object (membersOf [(enabledName, .bool enabled)])) :=
  Json.spells_render (.cons ⟨rfl, spells_renderBool enabled⟩ .nil)

theorem spells_renderCache (limits : CacheLimits) :
    Spells (renderCache limits) (.object (membersOf (cacheNames.zip
      [documentOfOptional limits.maxEntries, documentOfOptional limits.maxAgeSeconds]))) :=
  Json.spells_render
    (.cons ⟨rfl, spells_renderOptional _⟩ (.cons ⟨rfl, spells_renderOptional _⟩ .nil))

theorem spells_render : Spells options.render (.object (membersOf options.fieldsOf)) := by
  have hurl : Spells (Record.render [(basePathName, quote options.basePath)])
      (.object (membersOf [(basePathName, .string (literalOf options.basePath))])) :=
    Json.spells_render (.cons ⟨rfl, spells_quote _⟩ .nil)
  apply Json.spells_render
  exact .cons ⟨rfl, spells_quote _⟩ <| .cons ⟨rfl, spells_renderBool _⟩ <|
    .cons ⟨rfl, spells_renderBool _⟩ <| .cons ⟨rfl, spells_renderEnabled _⟩ <|
    .cons ⟨rfl, spells_renderEnabled _⟩ <| .cons ⟨rfl, spells_renderEnabled _⟩ <|
    .cons ⟨rfl, spells_quote _⟩ <| .cons ⟨rfl, spells_renderCache _⟩ <| .cons ⟨rfl, hurl⟩ <|
    .cons ⟨rfl, spells_renderNat _⟩ .nil

end Rendered

/-- Whatever fields are chosen and however they are written, what is read are the options over the
defaults. So written options are read back. -/
theorem read?_overlay {options : Options} (hfits : options.Fits) :
    (∀ (chosen : Field → Bool) (members : List (Literal × Document)) (text : Text),
      Writes chosen options members → (Document.object members).IsText text →
        read? text = some (overlay chosen options)) ∧
      read? options.render = some options := by
  have hdocument (chosen : Field → Bool) (members : List (Literal × Document)) (text : Text)
      (hwrites : Writes chosen options members)
      (htext : Document.read? text = some (.object members)) :
      read? text = some (overlay chosen options) := by
    rw [read?, htext, Option.bind_some, ofDocument?_of_writes hfits hwrites]
  refine ⟨fun chosen members text hwrites htext ↦ ?_, ?_⟩
  · exact hdocument chosen members text hwrites htext.read?
  · have hall := hdocument _ _ options.render options.writes_fieldsOf options.spells_render.read?
    rwa [overlay_all] at hall

/-! ## An object with a note -/

section Note

/-- Options with a number at the limit of its bits. -/
def notedOptions : Options :=
  { default with
    extension := "ra\"in".toList
    style := false
    cache := ⟨some 18446744073709551615, some 60⟩
    maxDepth := 2 }

def notedFields : Field → Bool
  | .extension | .style | .maxEntries => true
  | _ => false

def notedMembers : List (Literal × Document) :=
  [(literalOf "style".toList, .object (membersOf [(enabledName, .bool false)])),
    (literalOf "note".toList, .array [.number ⟨true, ['1'], some ['5'], none⟩, .null]),
    (literalOf "cache".toList, .object (membersOf
      [("maxEntries".toList, .number (Number.ofNat 18446744073709551615))])),
    (literalOf "url".toList, .object []),
    (.escaped 101 :: literalOf "xtension".toList, .string (literalOf "ra\"in".toList))]

def notedText : Text :=
  ("\x7b \"style\": \x7b\"enabled\":false\x7d,\n\"note\" : [-1.5, null]," ++
    "\"cache\":\x7b\"maxEntries\":18446744073709551615\x7d,\"url\":\x7b \x7d," ++
    "\"\\u0065xtension\":\"ra\\\"in\"\x7d\n").toList

theorem fits_notedOptions : notedOptions.Fits where
  maxEntries := by decide
  maxAgeSeconds := by decide
  maxDepth := by decide

theorem writes_notedMembers : Writes notedFields notedOptions notedMembers where
  keys := by decide
  extension := .chosen ⟨rfl⟩ rfl
  isScoped := .leftOut rfl
  isTemplateScoped := .leftOut rfl
  template := .leftOut rfl
  script := .leftOut rfl
  style := .object (by decide) (.chosen rfl rfl) rfl
  styleOutput := .leftOut rfl
  cache := .object (by decide) ⟨.chosen rfl rfl, .leftOut rfl⟩ rfl
  url := .object (by decide) (.leftOut rfl) rfl
  maxDepth := .leftOut rfl

theorem isText_notedText : (Document.object notedMembers).IsText notedText := by
  have hspace : IsSpacing [' '] := by simp [IsSpacing, Token.isSpace]
  have hline : IsSpacing ['\n'] := by simp [IsSpacing, Token.isSpace]
  have hname (text : Text) := Literal.writes_literalOf text
  have hinner {name : Text} {document : Document} {text : Text} (h : document.Writes text) :
      (Document.object (membersOf [(name, document)])).Writes _ :=
    .object (.last isSpacing_nil (hname name) isSpacing_nil isSpacing_nil h isSpacing_nil)
  have hnumber : Number.Writes ⟨true, ['1'], some ['5'], none⟩ _ :=
    .mk (Number.isWhole_toDigits 1) (.digits ⟨by decide, (Number.isWhole_toDigits 5).isDigit⟩)
      .absent
  have hnote : (Document.array [.number ⟨true, ['1'], some ['5'], none⟩, .null]).Writes _ :=
    .array (.cons isSpacing_nil (.number hnumber) isSpacing_nil
      (.last hspace .null isSpacing_nil))
  have hentries : (Number.ofNat 18446744073709551615).Writes _ :=
    .mk (Number.isWhole_toDigits _) .absent .absent
  have hextension : Literal.Writes (.escaped 101 :: literalOf "xtension".toList) _ :=
    .cons (.code (by decide : Literal.unit? '0' '0' '6' '5' = some 101)) (hname _)
  have hmembers : Document.WritesMembers notedMembers _ :=
    .cons hspace (hname _) isSpacing_nil hspace (hinner (.bool false)) isSpacing_nil <|
    .cons hline (hname _) hspace hspace hnote isSpacing_nil <|
    .cons isSpacing_nil (hname _) isSpacing_nil isSpacing_nil (hinner (.number hentries))
      isSpacing_nil <|
    .cons isSpacing_nil (hname _) isSpacing_nil isSpacing_nil (.emptyObject hspace)
      isSpacing_nil <|
    .last isSpacing_nil hextension isSpacing_nil isSpacing_nil (.string (hname _)) isSpacing_nil
  convert Document.IsText.mk isSpacing_nil (.object hmembers) hline using 1
  decide +kernel

theorem read?_overlay_notedText :
    read? notedText = some
        { default with
          extension := "ra\"in".toList
          style := false
          cache := ⟨some 18446744073709551615, none⟩ } ∧
      read? notedOptions.render = some notedOptions := by
  obtain ⟨hread, hrender⟩ := read?_overlay fits_notedOptions
  exact ⟨hread notedFields notedMembers notedText writes_notedMembers isText_notedText, hrender⟩

end Note

end ComponentMarkup.Options
