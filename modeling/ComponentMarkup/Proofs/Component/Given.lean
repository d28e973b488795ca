import ComponentMarkup.Proofs.Component.Alike
import ComponentMarkup.Proofs.Template.Children

/-!
# What a child is given

A child sees its own data below all that it is given, and what it is given comes in layers: the
attributes of its parent and the data of its parent, of both only what the child declares as its
props, then the attributes of its own tag, and the inner text of the tag under the name of the
children. Every name has its value from the uppermost layer that has it, whatever the values are.
-/

namespace ComponentMarkup

open Json Tag

/-- The data that a component has of its own. -/
def Host.ownData (host : Host) (tree : FileTree) (path : Path) : Data :=
  (((host.definition? tree path).getD .empty).data.map DataSource.data).getD []

namespace Component

/-- All that the names in the template of a child may come from. -/
structure Layers where
  /-- The attributes of its tag as they were written, repeated names included. -/
  written : List (Text × Text)
  inner : Text
  /-- The names that the child takes from its parent. -/
  props : List Text
  parent : Data
  invocation : Attributes
  own : Data

namespace Layers

variable (layers : Layers)

/-- What the parent hands down under a name: what it has, else what it was given. -/
def handed? (key : Text) : Option Value :=
  if key ∈ layers.props then
    (Dict.find? layers.parent key).or ((Dict.find? layers.invocation key).map .string)
  else none

/-- What a child is given under a name: the inner text for the children, else what its tag says
last, else what the parent hands down. -/
def given? (key : Text) : Option Value :=
  if key = childrenName then some (.string layers.inner)
  else ((Dict.find? layers.written.reverse key).map .string).or (layers.handed? key)

/-- The value of a name in the template of a child: what it is given, else what it has itself. -/
def value? (key : Text) : Option Value := (layers.given? key).or (Dict.find? layers.own key)

end Layers

/-- The page of a component, where filling its template leaves its data as they are. -/
def Request.page (host : Host) (tree : FileTree) (path : Path) (request : Request) : Page :=
  ⟨Path.parent path, (host.model tree path request.data).1.data, request.invocation⟩

/-- The layers that the tag of a child has its names from, where it stands in a page. -/
def layersOf (host : Host) (tree : FileTree) (page : Page) (file : Path)
    (written : List (Text × Text)) (tag : Occurrence) : Layers where
  written
  inner := tag.innerText
  props := host.props tree file
  parent := page.data
  invocation := page.invocation
  own := host.ownData tree file

section Given

variable {key : Text}

theorem find?_attributeData (attributes : Attributes) (key : Text) :
    Dict.find? (attributeData attributes) key = (Dict.find? attributes key).map .string := by
  induction attributes with
  | nil => rfl
  | cons entry rest ih =>
    rw [attributeData, List.map_cons, Dict.find?, ← attributeData, ih, Dict.find?]
    split <;> rfl

/-- A member is given if the child declares it. -/
theorem find?_propData (props : List Text) (member? : Text → Option Value) (key : Text) :
    Dict.find? (propData props member?) key = if key ∈ props then member? key else none := by
  induction props with
  | nil => rfl
  | cons prop rest ih =>
    rw [propData, List.filterMap_cons, ← propData]
    by_cases hkey : prop = key
    · subst hkey
      cases hprop : member? prop with
      | none =>
        rw [Option.map_none, ih, hprop]
        simp
      | some value => simp [Dict.find?]
    · have hmem : key ∈ prop :: rest ↔ key ∈ rest := by simp [Ne.symm hkey]
      cases member? prop with
      | none => simpa only [Option.map_none, hmem] using ih
      | some value => simpa only [Option.map_some, Dict.find?, if_neg hkey, hmem] using ih

theorem reverse_propData (props : List Text) (member? : Text → Option Value) :
    (propData props member?).reverse = propData props.reverse member? :=
  List.filterMap_reverse.symm

theorem reverse_attributeData (attributes : Attributes) :
    (attributeData attributes).reverse = attributeData attributes.reverse :=
  List.map_reverse.symm

/-- What a child is given is found layer by layer. -/
theorem find?_childData_settled (layers : Layers) (key : Text) :
    Dict.find? (childData layers.props layers.invocation layers.parent
      (Dict.settled layers.written) layers.inner) key = layers.given? key := by
  have hwritten : Dict.find? (attributeData (Dict.settled layers.written).reverse) key =
      (Dict.find? layers.written.reverse key).map .string := by
    rw [find?_attributeData, Dict.find?_reverse_of_nodup (Dict.nodup_keys_settled _),
      Dict.find?_settled]
  have hhanded : (Dict.find? (propData layers.props.reverse (Dict.find? layers.parent)) key).or
      (Dict.find? (propData layers.props.reverse fun prop ↦
        (Dict.find? layers.invocation prop).map .string) key) = layers.handed? key := by
    simp only [find?_propData, List.mem_reverse, Layers.handed?]
    split <;> rfl
  rw [childData, Object.ofMembers, Object.find?_overlay_reverse, Layers.given?]
  simp only [List.reverse_append, List.reverse_singleton, List.singleton_append, reverse_propData,
    reverse_attributeData, Dict.find?, Dict.find?_append, Option.or_none, hwritten, hhanded]
  by_cases hkey : key = childrenName
  · rw [if_pos hkey, if_pos hkey.symm]
  · rw [if_neg hkey, if_neg (Ne.symm hkey)]

end Given

section Tag

variable (setting : Setting) {host : Host} {page : Page} {tag : Occurrence}
  {written : List (Text × Text)}

theorem isSorted_childRequest (host : Host) (page : Page) (tag : Occurrence) (file : Path) :
    (childRequest setting host page tag file).data.IsSorted :=
  isSorted_childData _ _ _ _ _

theorem find?_childRequest (hparse : Attributes.parse tag.attributes = Dict.settled written)
    (file : Path) (key : Text) :
    Dict.find? (childRequest setting host page tag file).data key =
      (layersOf host setting.tree page file written tag).given? key := by
  rw [childRequest, hparse]
  exact find?_childData_settled (layersOf host setting.tree page file written tag) key

/-- The data that the template of a child is filled from are found layer by layer. -/
theorem find?_model_childRequest (hbare : host.IsBare)
    (hparse : Attributes.parse tag.attributes = Dict.settled written) (file : Path) (key : Text) :
    Dict.find? (host.model setting.tree file (childRequest setting host page tag file).data).1.data
        key =
      (layersOf host setting.tree page file written tag).value? key := by
  have hdata := (hbare.isPlain_definition? setting.tree file).model_data
    (childRequest setting host page tag file).data
  have hsorted := isSorted_childRequest setting host page tag file
  rw [Host.model, hdata, Object.find?_overlay hsorted, find?_childRequest setting hparse]
  rfl

/-- Filling its template leaves the data of a component that has no methods as they are. -/
theorem draft_data (hbare : host.IsBare) (path : Path) (data : Data)
    (invocation : Attributes) (source : Text) :
    (draft setting host path data invocation source).data =
      (host.model setting.tree path data).1.data := by
  have hplain : (host.model setting.tree path data).1.IsPlain :=
    (hbare.isPlain_definition? setting.tree path).isPlain_model data
  simp only [draft, Template.render_snd hplain]

variable {setting} in
theorem page_of_draft? (hbare : host.IsBare) {request : Request} {draft : Draft}
    (h : draft? setting host request = some draft) :
    draft.page = request.page host setting.tree draft.path := by
  obtain ⟨path, hpath, hdraft⟩ := Option.bind_eq_some_iff.1 h
  split at hdraft
  · rw [← Option.some.inj hdraft, Draft.page, draft_data _ hbare]
    rfl
  · simp at hdraft

end Tag

end Component

end ComponentMarkup
