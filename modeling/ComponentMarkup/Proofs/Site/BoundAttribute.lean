import ComponentMarkup.Proofs.Attributes.OpeningTag
import ComponentMarkup.Proofs.Component.Childless
import ComponentMarkup.Proofs.Component.Given
import ComponentMarkup.Proofs.Text.Html

/-!
# Values that are bound to attributes

A value that a page binds to an attribute of a child's tag is escaped where it is put in, and the
text of an attribute is taken as it stands. So the child is given the escaped value, where a prop
would have handed down the value itself, and what the child shows of it is escaped once more. Both
come to the same exactly if no character of the value is special.
-/

namespace ComponentMarkup.Component

open Tag Text

/-! ## Tags of a card -/

def cardName : Text := "card".toList

/-- What a page has, and what its card shows. -/
def valueName : Template.Surface.Name := ⟨'t', [], rfl, List.forall_mem_nil _⟩

def titleName : Template.Surface.Name := ⟨'t', "itle".toList, rfl, List.all_eq_true.1 rfl⟩

/-- A page that binds its value to the title of its card. -/
def boundTemplate : Text := "<card title=\"\x7b\x7b t \x7d\x7d\"></card>".toList

/-- A page whose card has no attributes. -/
def plainTemplate : Text := "<card></card>".toList

def plainOccurrence : Occurrence := ⟨[], cardName, [], .closed [] (closingTag cardName)⟩

section Tag

variable {value : Text} (hvalue : '"' ∉ value)

/-- The title of a card, in an attribute of its tag. -/
def titleSurface : Attributes.Surface where
  gap := .space
  name := titleName.text
  assignment := some ⟨.none, .none, .quoted ⟨'"', value, Attributes.Quoted.quote_eq_double, hvalue⟩⟩
  gap_ne_nil := Attributes.Gap.space_ne_nil
  name_ne_nil := by decide
  isName := List.all_eq_true.1 rfl
  close_not_mem := by decide

/-- The opening tag of a card with this title. -/
def titledCard : Attributes.OpeningTag where
  name := cardName
  attributes := [titleSurface hvalue]
  after := .none
  closesItself := false
  isName := by decide
  after_ne_nil := by simp
  isQuoted_getLast? _ surface hsurface := by
    obtain rfl : titleSurface hvalue = surface := by simpa using hsurface
    intro assignment hassignment
    obtain rfl := Option.some.inj hassignment
    exact ⟨_, rfl⟩

/-- A card with this title and nothing inside, as it is found in a page. -/
def titledOccurrence : Occurrence :=
  ⟨[], cardName, (titledCard hvalue).inside, .closed [] (closingTag cardName)⟩

theorem text_titledOccurrence :
    (titledOccurrence hvalue).text =
      "<card title=\"".toList ++ (value ++ "\"></card>".toList) := by
  show '<' :: [] ++ cardName ++ ((([' '] ++ titleName.text ++ ([] ++ '=' :: [] ++
    ('"' :: value ++ ['"']))) ++ []) ++ []) ++ ('>' :: [] ++ closingTag cardName) = _
  simp [cardName, titleName, Template.Surface.Name.text, closingTag]

theorem occurrences_titledOccurrence :
    occurrences .ignored cardName (titledOccurrence hvalue).text = [titledOccurrence hvalue] := by
  have hfound := (titledCard hvalue).occurrences_text_append_closingTag rfl
    (List.not_mem_nil (a := '<'))
  have htext : (titledOccurrence hvalue).text =
      (titledCard hvalue).text ++ ([] ++ closingTag cardName) := by
    simp [titledOccurrence, Occurrence.text, Occurrence.front, Ending.text,
      Attributes.OpeningTag.text, Attributes.OpeningTag.slash, titledCard]
  rw [htext]
  exact hfound

/-- The title is read from the attribute as it stands there. -/
theorem parse_attributes_titledOccurrence :
    Attributes.parse (titledOccurrence hvalue).attributes =
      Dict.settled [(titleName.text, value)] :=
  Attributes.Surface.parse_textOf_append [titleSurface hvalue] .none

/-- The page holds the escaped value between the quotes of the attribute. -/
theorem fill_boundTemplate {model : Model} {s : Text}
    (hs : Dict.find? model.data valueName.text = some (.string s)) (h : '"' ∉ escapeHtml s) :
    (Template.fill model boundTemplate).1 = (titledOccurrence h).text := by
  have htemplate : boundTemplate = "<card title=\"".toList ++
      (Template.showing true valueName.text ++ "\"></card>".toList) := by decide
  rw [htemplate, Template.fill_append _ (by decide), Template.fill_showing_append (by decide),
    Template.fill_of_not_mem _ (by decide), hs, text_titledOccurrence]
  rfl

end Tag

/-! ## Two pages of a card -/

/-- A page that binds its value to the title of its card, which shows its title. -/
structure BindsTitle (tree : FileTree) (path file : Path) (data : Data) (s : Text) : Prop where
  template : HoldsTemplate tree path boundTemplate
  card : HasOnlyChild tree path cardName file (Template.showing true titleName.text)
  value : Dict.find? (Host.default.model tree path data).1.data valueName.text = some (.string s)

/-- A page that hands its title down to its card, which declares it and shows it. -/
structure HandsTitle (tree : FileTree) (path file : Path) (data : Data) (s : Text) : Prop where
  template : HoldsTemplate tree path plainTemplate
  card : HasOnlyChild tree path cardName file (Template.showing true titleName.text)
  prop : titleName.text ∈ Host.default.props tree file
  value : Dict.find? (Host.default.model tree path data).1.data titleName.text = some (.string s)

section Pages

variable {tree : FileTree} {path file : Path} {data : Data} {s : Text}

theorem BindsTitle.isOneTag (h : BindsTitle tree path file data s)
    (hquote : '"' ∉ escapeHtml s) :
    IsOneTag tree path file boundTemplate (Template.showing true titleName.text) data
      (titledOccurrence hquote) where
  template := h.template
  child := h.card
  fill_eq := fill_boundTemplate h.value hquote
  occurrences_eq := occurrences_titledOccurrence hquote

theorem HandsTitle.isOneTag (h : HandsTitle tree path file data s) :
    IsOneTag tree path file plainTemplate (Template.showing true titleName.text) data
      plainOccurrence where
  template := h.template
  child := h.card
  fill_eq := congrArg Prod.fst (Template.fill_of_not_mem _ (by decide))
  occurrences_eq := by decide +kernel

/-- The card is given the text of its attribute. -/
theorem find?_title_titledOccurrence (setting : Setting) {value : Text} (hvalue : '"' ∉ value)
    (page : Page) (file : Path) :
    Dict.find? (childRequest setting .default page (titledOccurrence hvalue) file).data
      titleName.text = some (.string value) := by
  rw [find?_childRequest setting (parse_attributes_titledOccurrence hvalue), Layers.given?,
    if_neg (by decide)]
  rfl

/-- The card is given what the page has. -/
theorem HandsTitle.find?_title (options : Options) {request : Request}
    (h : HandsTitle tree path file request.data s) :
    Dict.find? (childRequest ⟨tree, options⟩ .default (request.page .default tree path)
      plainOccurrence file).data titleName.text = some (.string s) := by
  have hparse : Attributes.parse plainOccurrence.attributes = Dict.settled [] := by decide +kernel
  have hparent : Dict.find? (request.page .default tree path).data titleName.text =
      some (.string s) := h.value
  rw [find?_childRequest ⟨tree, options⟩ hparse, Layers.given?, if_neg (by decide), layersOf,
    Layers.handed?, if_pos h.prop, hparent]
  rfl

end Pages

end ComponentMarkup.Component

namespace ComponentMarkup.Site

open Component Text

section OneTag

variable {tree : FileTree} {root reference path file : Path} {content : Text} {data : Data}
  {occurrence : Tag.Occurrence} {maxDepth : Nat}

/-- A page that is one tag of a card is rendered to the title that the card is given, escaped. -/
theorem render_of_isOneTag (hdepth : 1 ≤ maxDepth)
    (hpath : resolve? tree Options.default.extension root reference = some path)
    (h : IsOneTag tree path file content (Template.showing true titleName.text) data occurrence)
    {title : Text}
    (htitle : Dict.find? (childRequest ⟨tree, defaultUpTo maxDepth⟩ .default
      ((⟨root, reference, data, []⟩ : Request).page .default tree path) occurrence
      file).data titleName.text = some (.string title)) :
    ((new root (defaultUpTo maxDepth) .default).render tree (.one reference) data).1 =
      trim (escapeHtml title) := by
  obtain ⟨depth, rfl⟩ : ∃ depth, maxDepth = depth + 1 := Nat.exists_eq_add_of_le' hdepth
  let request : Request := ⟨root, reference, data, []⟩
  have hfile : request.path? ⟨tree, defaultUpTo (depth + 1)⟩ = some path := hpath
  have htag : IsOneTag tree path file content (Template.showing true titleName.text) request.data
      occurrence := h
  have hagree : PathsAgree ⟨tree, defaultUpTo (depth + 1)⟩ .default
      ((new root (defaultUpTo (depth + 1)) .default).asked tree (.one reference) data) := by
    rw [asked_one]
    exact htag.pathsAgree hfile depth
  have hsorted := isSorted_childRequest ⟨tree, defaultUpTo (depth + 1)⟩ .default
    (request.page .default tree path) occurrence file
  calc
    _ = (new root (defaultUpTo (depth + 1)) .default).outcome tree (.one reference) data :=
      render_new_eq_outcome_of_pathsAgree Host.isBare_default.isSteady hagree
    _ = trim (Template.fill (Host.default.model tree file (childRequest
          ⟨tree, defaultUpTo (depth + 1)⟩ .default (request.page .default tree path) occurrence
          file).data).1 (Template.showing true titleName.text)).1 :=
      htag.output_eq hfile depth
    _ = trim (escapeHtml title) := by
      rw [Template.fill_showing (by decide), find?_model file hsorted htitle]
      rfl

end OneTag

/-- A page that binds a value to the title of its card is rendered to the value escaped twice. The
page itself shows the value escaped once, and so does a page that hands it down, since its card is
given the value as it is. Both come to the same exactly if no character of the value is special. -/
theorem render_bindsTitle {tree : FileTree} {root reference path file : Path} {data : Data}
    {s : Text} {maxDepth : Nat} (hdepth : 1 ≤ maxDepth)
    (hpath : resolve? tree Options.default.extension root reference = some path)
    (hbinds : BindsTitle tree path file data s) :
    let setting : Setting := ⟨tree, defaultUpTo maxDepth⟩
    let site := new root (defaultUpTo maxDepth) .default
    let output := (site.render tree (.one reference) data).1
    let shown := trim (Template.fill (Host.default.model tree path data).1
      (Template.showing true valueName.text)).1
    output = trim (escapeHtml (escapeHtml s)) ∧
      shown = trim (escapeHtml s) ∧
      (output = shown ↔ ∀ c ∈ s, c ∉ specialChars) ∧
      ∃ child, childRequests setting .default ⟨root, reference, data, []⟩ = [child] ∧
        Dict.find? child.data titleName.text = some (.string (escapeHtml s)) ∧
        ∀ {reference other : Path} {data : Data},
          resolve? tree Options.default.extension root reference = some other →
          HandsTitle tree other file data s →
            (site.render tree (.one reference) data).1 = shown ∧
            ∃ sibling, childRequests setting .default ⟨root, reference, data, []⟩ = [sibling] ∧
              Dict.find? sibling.data titleName.text = some (.string s) ∧
              (Dict.find? child.data titleName.text = Dict.find? sibling.data titleName.text ↔
                ∀ c ∈ s, c ∉ specialChars) := by
  have hquote := not_mem_escapeHtml (d := '"') (by decide) s
  let request : Request := ⟨root, reference, data, []⟩
  have hbound : IsOneTag tree path file boundTemplate _ request.data _ := hbinds.isOneTag hquote
  have hgiven := find?_title_titledOccurrence ⟨tree, defaultUpTo maxDepth⟩ hquote
    (request.page .default tree path) file
  have hrendered := render_of_isOneTag hdepth hpath hbound hgiven
  have hshown : trim (Template.fill (Host.default.model tree path data).1
      (Template.showing true valueName.text)).1 = trim (escapeHtml s) := by
    rw [Template.fill_showing (by decide), hbinds.value]
    rfl
  refine ⟨hrendered, hshown, ?_, _, hbound.childRequests_eq hpath, hgiven, ?_⟩
  · rw [hrendered, hshown]
    exact trim_escapeHtml_escapeHtml_eq_iff s
  · intro reference other data hother hhands
    let request : Request := ⟨root, reference, data, []⟩
    have hhands : HandsTitle tree other file request.data s := hhands
    have hplain := hhands.isOneTag
    have hhanded := hhands.find?_title (defaultUpTo maxDepth)
    have hsame := render_of_isOneTag hdepth hother hplain hhanded
    refine ⟨hsame.trans hshown.symm, _, hplain.childRequests_eq hother, hhanded, ?_⟩
    rw [hgiven, hhanded, Option.some.injEq, Json.Value.string.injEq]
    exact escapeHtml_eq_self_iff

/-! ## A card with an ampersand -/

/-- Two pages of one card. -/
def titledPages : FileTree :=
  let file (name content : String) (tree : FileTree) : FileTree :=
    tree.write ("/rain/".toList ++ name.toList) (.text content.toList) (some 1)
  file "bound.rain" "<template><card title=\"\x7b\x7b t \x7d\x7d\"></card></template>"
    <| file "bound.json" "\x7b\"components\":[\"card.rain\"]\x7d"
    <| file "plain.rain" "<template><card></card></template>"
    <| file "plain.json" "\x7b\"components\":[\"card.rain\"]\x7d"
    <| file "card.rain" "<template>\x7b\x7b title \x7d\x7d</template>"
    <| file "card.json" "\x7b\"props\":[\"title\"]\x7d" .empty

theorem bindsTitle_titledPages (s : Text) :
    BindsTitle titledPages "/rain/bound.rain".toList "/rain/card.rain".toList
      [(valueName.text, .string s)] s where
  template := by decide +kernel
  card := ⟨⟨"card.rain".toList, by decide +kernel, by decide +kernel⟩, by decide +kernel⟩
  value := find?_model _ (Json.Object.isSorted_singleton _ _) rfl

theorem handsTitle_titledPages (s : Text) :
    HandsTitle titledPages "/rain/plain.rain".toList "/rain/card.rain".toList
      [(titleName.text, .string s)] s where
  template := by decide +kernel
  card := ⟨⟨"card.rain".toList, by decide +kernel, by decide +kernel⟩, by decide +kernel⟩
  prop := by decide +kernel
  value := find?_model _ (Json.Object.isSorted_singleton _ _) rfl

theorem render_bindsTitle_tea :
    BindsTitle titledPages "/rain/bound.rain".toList "/rain/card.rain".toList
        [(valueName.text, .string " tea".toList)] " tea".toList ∧
      HandsTitle titledPages "/rain/plain.rain".toList "/rain/card.rain".toList
        [(titleName.text, .string " tea".toList)] " tea".toList ∧
      ((new "/rain".toList (defaultUpTo 1) .default).render titledPages (.one "bound.rain".toList)
        [(valueName.text, .string " tea".toList)]).1 = "tea".toList ∧
      ((new "/rain".toList (defaultUpTo 1) .default).render titledPages (.one "plain.rain".toList)
        [(titleName.text, .string " tea".toList)]).1 = "tea".toList := by
  have hbinds := bindsTitle_titledPages " tea".toList
  have hhands := handsTitle_titledPages " tea".toList
  have hbound : resolve? titledPages Options.default.extension "/rain".toList
      "bound.rain".toList = some "/rain/bound.rain".toList := by
    decide +kernel
  have hplain : resolve? titledPages Options.default.extension "/rain".toList
      "plain.rain".toList = some "/rain/plain.rain".toList := by
    decide +kernel
  obtain ⟨houtput, hshown, _, _, _, _, hhanded⟩ := render_bindsTitle le_rfl hbound hbinds
  exact ⟨hbinds, hhands, houtput.trans (by decide +kernel),
    ((hhanded hplain hhands).1.trans hshown).trans (by decide +kernel)⟩

/-- The page that binds the value shows the reference of a reference. -/
theorem render_ampersand :
    BindsTitle titledPages "/rain/bound.rain".toList "/rain/card.rain".toList
        [(valueName.text, .string "a&b".toList)] "a&b".toList ∧
      ((new "/rain".toList (defaultUpTo 1) .default).render titledPages (.one "bound.rain".toList)
        [(valueName.text, .string "a&b".toList)]).1 = "a&amp;amp;b".toList ∧
      trim (escapeHtml "a&b".toList) = "a&amp;b".toList ∧
      HandsTitle titledPages "/rain/plain.rain".toList "/rain/card.rain".toList
        [(titleName.text, .string "a&b".toList)] "a&b".toList ∧
      ((new "/rain".toList (defaultUpTo 1) .default).render titledPages (.one "plain.rain".toList)
        [(titleName.text, .string "a&b".toList)]).1 = "a&amp;b".toList :=
  ⟨bindsTitle_titledPages _, by decide +kernel, by decide +kernel, handsTitle_titledPages _,
    by decide +kernel⟩

end ComponentMarkup.Site
