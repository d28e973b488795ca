import ComponentMarkup.Proofs.Component.Outcome
import ComponentMarkup.Proofs.Template.Plain

/-!
# Requests that come out the same

Where nothing is registered, all models come from files, and two requests for one component with
the same attributes come out the same if the outlines of their data are the same. The text that is
digested for the cache determines the attributes and the outlines, so requests for one component
with one such text come out the same.
-/

namespace ComponentMarkup

open Json Json.Value

/-- Nothing is registered. -/
def Host.IsBare (host : Host) : Prop := host.registered = []

/-- A host that gives what a host with nothing registered gives is this host. -/
theorem Host.IsBare.eq_of_now_eq {host other : Host} (h : host.IsBare)
    (hnow : other.now = host.now) : other = host := by
  have hregistered : other.registered.map (Prod.map id Definition.now) =
      host.registered.map (Prod.map id Definition.now) := congrArg Host.registered hnow
  have hextension : other.now.extension = host.now.extension := congrArg Host.extension hnow
  rw [show host.registered = [] from h, List.map_nil, List.map_eq_nil_iff] at hregistered
  rw [Host.now, Host.now] at hextension
  cases other
  cases host
  rw [Host.mk.injEq]
  exact ⟨hregistered.trans h.symm, hextension⟩

theorem Host.isBare_ofExtension (extension : Text) : (Host.ofExtension extension).IsBare := rfl

theorem Host.isBare_default : Host.default.IsBare := Host.isBare_ofExtension _

theorem Host.IsBare.isSteady {host : Host} (h : host.IsBare) : host.IsSteady := by
  intro entry hentry
  rw [h] at hentry
  exact absurd hentry List.not_mem_nil

/-- A definition with data, components and props only. -/
structure Definition.IsPlain (definition : Definition) : Prop where
  methods : definition.methods = none
  filters : definition.filters = none
  created : definition.created = none

theorem Definition.isPlain_empty : Definition.empty.IsPlain := ⟨rfl, rfl, rfl⟩

theorem Definition.isPlain_ofValue (value : Value) : (ofValue value).IsPlain := by
  cases value <;> exact ⟨rfl, rfl, rfl⟩

theorem Host.IsBare.isPlain_definition? {host : Host} (h : host.IsBare) (tree : FileTree)
    (component : Path) : ((host.definition? tree component).getD .empty).IsPlain := by
  have hregistered : host.registered? tree component = none := by
    simp [Host.registered?, show host.registered = [] from h]
  have hdefinition : host.definition? tree component = host.sidecarDefinition? tree component := by
    rw [Host.definition?, hregistered]
    cases host.sidecarDefinition? tree component <;> rfl
  have hsidecar : host.sidecarDefinition? tree component = none ∨
      ∃ text, host.sidecarDefinition? tree component = Definition.read? text := by
    by_cases hsame : Path.same (host.sidecar component) component = true
    · exact Or.inl (by simp [Host.sidecarDefinition?, hsame])
    · cases hread : tree.read (host.sidecar component) with
      | error _ => exact Or.inl (by simp [Host.sidecarDefinition?, hread])
      | ok text => exact Or.inr ⟨text, by simp [Host.sidecarDefinition?, hsame, hread]⟩
  rw [hdefinition]
  rcases hsidecar with hnone | ⟨text, htext⟩
  · rw [hnone]
    exact Definition.isPlain_empty
  · rw [htext, Definition.read?]
    cases Value.read? text with
    | none => exact Definition.isPlain_empty
    | some value => exact Definition.isPlain_ofValue value

section Model

variable {definition : Definition}

theorem Definition.IsPlain.isPlain_model (h : definition.IsPlain) (data : Data) :
    (definition.model data).IsPlain :=
  ⟨by simp [Definition.model, h.methods], by simp [Definition.model, h.filters]⟩

theorem Definition.IsPlain.model_data (h : definition.IsPlain) (data : Data) :
    (definition.model data).data =
      Object.overlay ((definition.data.map DataSource.data).getD []) data := by
  simp [Definition.model, h.created]

theorem Definition.IsPlain.outline_model (h : definition.IsPlain) {a b : Data}
    (hdata : outlineMembers a = outlineMembers b) :
    outlineMembers (definition.model a).data = outlineMembers (definition.model b).data := by
  rw [h.model_data, h.model_data]
  exact Object.outlineMembers_overlay rfl hdata

end Model

namespace Component

theorem outline_propData (props : List Text) {a b : Text → Option Value}
    (h : ∀ prop, (a prop).map outline = (b prop).map outline) :
    outlineMembers (propData props a) = outlineMembers (propData props b) := by
  induction props with
  | nil => rfl
  | cons prop rest ih =>
    have hprop := h prop
    simp only [propData, List.filterMap_cons] at ih ⊢
    cases ha : a prop <;> cases hb : b prop <;>
      simp only [ha, hb, Option.map_some, Option.map_none, Option.some.injEq, reduceCtorEq] at hprop
    · exact ih
    · simp only [Option.map_some, outlineMembers, hprop, ih]

/-- What a child is given depends on the outlines of the parent's data. -/
theorem outline_childData (props : List Text) (invocation attributes : Attributes) (inner : Text)
    {a b : Data} (h : outlineMembers a = outlineMembers b) :
    outlineMembers (childData props invocation a attributes inner) =
      outlineMembers (childData props invocation b attributes inner) := by
  have hprops := outline_propData props (a := Dict.find? a) (b := Dict.find? b) fun prop ↦ by
    rw [← Object.find?_outlineMembers, h, Object.find?_outlineMembers]
  apply Object.outlineMembers_overlay rfl
  rw [outlineMembers_eq_map, outlineMembers_eq_map] at hprops ⊢
  simp only [List.map_append, hprops]

/-- Requests for one component with the same attributes, and with data of the same outlines. -/
structure Request.Alike (setting : Setting) (a b : Request) : Prop where
  path : a.path? setting = b.path? setting
  invocation : a.invocation = b.invocation
  data : outlineMembers a.data = outlineMembers b.data

variable {setting : Setting} {host : Host}

/-- Drafts differ in their data only, and there the outlines are the same. -/
theorem draft_alike (setting : Setting) (h : host.IsBare) (path : Path) {a b : Data}
    (hdata : outlineMembers a = outlineMembers b) (invocation : Attributes) (source : Text) :
    ∃ data, outlineMembers (draft setting host path a invocation source).data =
        outlineMembers data ∧
      draft setting host path b invocation source =
        { draft setting host path a invocation source with data } := by
  have hplain := h.isPlain_definition? setting.tree path
  have ha := hplain.isPlain_model a
  have hb := hplain.isPlain_model b
  have houtline := hplain.outline_model hdata
  refine ⟨(draft setting host path b invocation source).data, ?_, ?_⟩
  · simp only [draft, Host.model, Template.render_snd ha, Template.render_snd hb]
    exact houtline
  · have hfst := Template.render_fst ha hb houtline
    simp only [draft, Host.model, Template.render_snd ha, Template.render_snd hb, hfst, styleText]
    rfl

theorem outcomeTag_alike (host : Host) {child? : Option (Request → Rendered)}
    (hchild : ∀ child ∈ child?, ∀ {a b}, Request.Alike setting a b → child a = child b)
    (dir : Path) (invocation : Attributes) {a b : Data}
    (hdata : outlineMembers a = outlineMembers b) (visit : Visit) :
    outcomeTag setting host child? ⟨dir, a, invocation⟩ visit =
      outcomeTag setting host child? ⟨dir, b, invocation⟩ visit := by
  unfold outcomeTag
  cases hpath : resolve? setting.tree setting.options.extension dir visit.file with
  | none => rfl
  | some path =>
    cases child? with
    | none => rfl
    | some child =>
      exact hchild child rfl ⟨rfl, rfl, outline_childData _ _ _ _ hdata⟩

theorem outcomeWith_alike (h : host.IsBare) {child? : Option (Request → Rendered)}
    (hchild : ∀ child ∈ child?, ∀ {a b}, Request.Alike setting a b → child a = child b)
    {a b : Request} (hab : Request.Alike setting a b) :
    outcomeWith setting host child? a = outcomeWith setting host child? b := by
  unfold outcomeWith draft?
  rw [← hab.path]
  cases a.path? setting with
  | none => rfl
  | some path =>
    simp only [Option.bind_some]
    cases setting.tree.read path with
    | error _ => rfl
    | ok source =>
      simp only
      rw [← hab.invocation]
      obtain ⟨data, hdata, hdraft⟩ := draft_alike setting h path hab.data a.invocation source
      rw [hdraft]
      have htags := outcomeTag_alike host hchild (Path.parent path) a.invocation hdata
      have hmap := List.map_congr_left
        (l := (draft setting host path a.data a.invocation source).visits) fun visit _ ↦ htags visit
      exact congrArg ((draft setting host path a.data a.invocation source).finish setting) hmap

/-- Requests that are alike come out the same. -/
theorem outcome_alike (h : host.IsBare) (depth : Nat) {a b : Request}
    (hab : Request.Alike setting a b) :
    outcome setting host depth a = outcome setting host depth b := by
  induction depth generalizing a b with
  | zero =>
    apply outcomeWith_alike h _ hab
    intro child hchild
    exact absurd hchild (by simp)
  | succ depth ih =>
    apply outcomeWith_alike h _ hab
    intro child hchild a b hab
    obtain rfl : outcome setting host depth = child := Option.some.inj hchild
    exact ih hab

end Component

namespace Cache

open Component

/-- Attributes are written like an object of texts. -/
theorem render_attributes (attributes : Attributes) :
    Record.render (attributes.map fun pair => (pair.1, quote pair.2)) =
      Object.render (attributeData attributes) := by
  have hfields : Record.renderFields (attributes.map fun pair => (pair.1, quote pair.2)) =
      renderMembers (attributeData attributes) := by
    induction attributes with
    | nil => rfl
    | cons pair rest ih =>
      cases rest with
      | nil => rfl
      | cons next rest =>
        simp only [attributeData, List.map_cons, Record.renderFields, renderMembers, Value.render] at ih ⊢
        rw [ih]
  rw [Record.render, hfields, Object.render, Value.render]

/-- The digested text determines the attributes and the outlines of the data. -/
theorem inputText_inj {a b : Data} {s t : Attributes} (h : inputText a s = inputText b t) :
    outlineMembers a = outlineMembers b ∧ s = t := by
  rw [inputText, inputText, render_attributes, render_attributes] at h
  obtain ⟨hdata, hrest⟩ :=
    Object.outline_of_render_append (stops_cons rfl _) (stops_cons rfl _) h
  rw [List.cons.injEq] at hrest
  obtain ⟨hattributes, _⟩ := Object.outline_of_render_append (s := []) (t := [])
    (by simp [Stops]) (by simp [Stops]) (by simpa using hrest.2)
  rw [outlineMembers_eq_map, outlineMembers_eq_map, attributeData, attributeData, List.map_map,
    List.map_map] at hattributes
  refine ⟨hdata, List.map_injective_iff.2 ?_ hattributes⟩
  rintro ⟨name, value⟩ ⟨name', value'⟩ hpair
  simpa [outline] using hpair

end Cache

namespace Component

/-- The text that is digested for the data and attributes of a request. -/
def Request.inputText (request : Request) : Text :=
  Cache.inputText request.data request.invocation

def Request.fingerprint (request : Request) : Text :=
  Cache.fingerprint request.data request.invocation

/-- The texts that are digested for askings. -/
def inputTexts (askings : List Asking) : List Text :=
  askings.map fun asking ↦ asking.request.inputText

/-- Texts with one digest are one text. -/
def DigestsTellApart (texts : List Text) : Prop :=
  ∀ s ∈ texts, ∀ t ∈ texts,
    Digest.sha256Hex (Text.bytes s) = Digest.sha256Hex (Text.bytes t) → s = t

instance (texts : List Text) : Decidable (DigestsTellApart texts) :=
  inferInstanceAs (Decidable (∀ s ∈ texts, ∀ t ∈ texts, _ → _))

/-- Where digests tell inputs apart, fingerprints do. -/
theorem DigestsTellApart.inputText_eq {texts : List Text} (h : DigestsTellApart texts)
    {a b : Request} (ha : a.inputText ∈ texts) (hb : b.inputText ∈ texts)
    (hfingerprint : a.fingerprint = b.fingerprint) : a.inputText = b.inputText :=
  h _ ha _ hb hfingerprint

theorem Request.alike_of_inputText {setting : Setting} {a b : Request}
    (hpath : a.path? setting = b.path? setting) (h : a.inputText = b.inputText) :
    a.Alike setting b :=
  ⟨hpath, (Cache.inputText_inj h).2, (Cache.inputText_inj h).1⟩

end Component

end ComponentMarkup
