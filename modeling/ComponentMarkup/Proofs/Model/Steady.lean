import ComponentMarkup.Model.Host

/-!
# Hosts that always give the same data

A producer is asked whenever its component is rendered, and the host counts the calls. A host is
steady if the count makes no difference to the data. What a host gives at a moment is the host with
fixed data in the places of its producers: calls do not change what a steady host gives, and all
models, props and components are those of what it gives.
-/

namespace ComponentMarkup

namespace DataSource

/-- Every later call gives the data of the next one. -/
def IsSteady : DataSource → Prop
  | fixed _ => True
  | producer calls values => ∀ n, (values (calls + n)).members = (values calls).members

/-- The data of the next call, from now on. -/
def now (source : DataSource) : DataSource := fixed source.data

variable {source : DataSource}

theorem IsSteady.advance (h : source.IsSteady) : source.advance.IsSteady := by
  cases source with
  | fixed data => trivial
  | producer calls values =>
    intro n
    rw [Nat.add_assoc, h (1 + n), h 1]

theorem IsSteady.now_advance (h : source.IsSteady) : source.advance.now = source.now := by
  cases source with
  | fixed data => rfl
  | producer calls values => exact congrArg fixed (h 1)

end DataSource

namespace Definition

def IsSteady (definition : Definition) : Prop := ∀ source ∈ definition.data, source.IsSteady

/-- The definition with the data of the next call. -/
def now (definition : Definition) : Definition :=
  { definition with data := definition.data.map DataSource.now }

variable {definition : Definition}

theorem IsSteady.advance (h : definition.IsSteady) : definition.advance.IsSteady := by
  intro source hsource
  obtain ⟨earlier, hearlier, rfl⟩ := Option.map_eq_some_iff.1 hsource
  exact (h earlier hearlier).advance

theorem IsSteady.now_advance (h : definition.IsSteady) : definition.advance.now = definition.now := by
  have hdata : (definition.data.map DataSource.advance).map DataSource.now =
      definition.data.map DataSource.now := by
    rw [Option.map_map]
    exact Option.map_congr fun source hsource ↦ (h source hsource).now_advance
  simp only [now, Definition.advance, hdata]

@[simp] theorem model_now (definition : Definition) (overrides : Data) :
    definition.now.model overrides = definition.model overrides := by
  have hdata : (definition.now.data.map DataSource.data).getD [] =
      (definition.data.map DataSource.data).getD [] := by
    rw [now, Option.map_map]
    rfl
  simp only [model, hdata]
  rfl

theorem now_overlay (lower upper : Definition) :
    (lower.overlay upper).now = lower.now.overlay upper.now := by
  simp only [now, overlay, Definition.mk.injEq, and_true]
  cases upper.data <;> rfl

/-- What is read from a file has fixed data. -/
theorem now_ofValue (value : Json.Value) : (ofValue value).now = ofValue value := by
  cases value with
  | object members =>
    simp only [now, ofValue, Option.map_map]
    rfl
  | _ => rfl

end Definition

namespace Host

/-- No call makes a difference to the data of what is registered. -/
def IsSteady (host : Host) : Prop := ∀ entry ∈ host.registered, entry.2.IsSteady

/-- What the host gives: everything that is registered, with the data of the next call. -/
def now (host : Host) : Host :=
  { host with registered := host.registered.map (Prod.map id Definition.now) }

theorem isSteady_ofExtension (extension : Text) : (ofExtension extension).IsSteady :=
  fun _ h ↦ absurd h List.not_mem_nil

section Now

variable (host : Host) (tree : FileTree) (component : Path)

theorem registered?_now :
    host.now.registered? tree component = (host.registered? tree component).map Definition.now := by
  simp only [registered?, now, List.find?_map, Option.map_map]
  rfl

theorem sidecarDefinition?_now :
    host.now.sidecarDefinition? tree component =
      (host.sidecarDefinition? tree component).map Definition.now := by
  show host.sidecarDefinition? tree component = _
  unfold sidecarDefinition?
  by_cases hsame : Path.same (host.sidecar component) component = true
  · simp [hsame]
  · cases htext : tree.read (host.sidecar component) with
    | error _ => simp [htext]
    | ok text =>
      simp only [hsame, Bool.false_eq_true, if_false, htext, Definition.read?, Option.map_map]
      exact (Option.map_congr fun value _ ↦ Definition.now_ofValue value).symm

theorem definition?_now :
    host.now.definition? tree component = (host.definition? tree component).map Definition.now := by
  rw [definition?, sidecarDefinition?_now, registered?_now, definition?]
  cases host.sidecarDefinition? tree component <;> cases host.registered? tree component
  · rfl
  · rfl
  · rfl
  · exact congrArg some (Definition.now_overlay _ _).symm

theorem getD_definition?_now :
    (host.now.definition? tree component).getD .empty =
      ((host.definition? tree component).getD .empty).now := by
  rw [definition?_now]
  cases host.definition? tree component <;> rfl

/-- The model of a component is that of what the host gives. -/
theorem model_now (overrides : Data) :
    (host.now.model tree component overrides).1 = (host.model tree component overrides).1 := by
  simp only [model, getD_definition?_now, Definition.model_now]

theorem props_now : host.now.props tree component = host.props tree component := by
  rw [props, definition?_now, props]
  cases host.definition? tree component <;> rfl

end Now

/-- Calls do not change what a steady host gives, and it stays steady. -/
theorem IsSteady.advance {host : Host} (h : host.IsSteady) (tree : FileTree) (component : Path) :
    (host.advance tree component).IsSteady ∧ (host.advance tree component).now = host.now := by
  constructor
  · intro entry hentry
    obtain ⟨earlier, hearlier, rfl⟩ := List.mem_map.1 hentry
    split
    · exact (h earlier hearlier).advance
    · exact h earlier hearlier
  · have hregistered : (host.registered.map fun entry ↦
        if Path.same entry.1 (key tree component) then (entry.1, entry.2.advance) else entry).map
          (Prod.map id Definition.now) = host.registered.map (Prod.map id Definition.now) := by
      rw [List.map_map]
      apply List.map_congr_left
      intro entry hentry
      simp only [Function.comp_apply]
      split
      · exact Prod.ext rfl (h entry hentry).now_advance
      · rfl
    simp only [now, Host.advance, hregistered]

end Host

end ComponentMarkup
