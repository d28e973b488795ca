import ComponentMarkup.Proofs.Json.Outline
import ComponentMarkup.Template.Render

/-!
# Templates of plain models

A plain model has no methods and no filters, as the models that are read from files. Filling a
template leaves it as it is, and of its data the page shows the outlines only.
-/

namespace ComponentMarkup

open Json Json.Value

/-- A model without methods and filters. -/
structure Model.IsPlain (model : Model) : Prop where
  methods : model.methods = []
  filters : model.filters = []

theorem Data.outline_step? {v w : Value} (h : outline v = outline w) (step : Text) :
    (Data.step? v step).map outline = (Data.step? w step).map outline := by
  cases v with
  | object vs =>
    cases w <;> simp only [outline, Outline.object.injEq, reduceCtorEq] at h
    rw [Data.step?, Data.step?, ← Object.find?_outlineMembers, h, Object.find?_outlineMembers]
  | array vs =>
    cases w <;> simp only [outline, Outline.array.injEq, reduceCtorEq] at h
    rename_i ws
    rw [outlineItems_eq_map, outlineItems_eq_map] at h
    have hplace (place : Nat) : (vs[place]?).map outline = (ws[place]?).map outline := by
      rw [← List.getElem?_map, h, List.getElem?_map]
    cases hindex : Data.index? step with
    | none => simp [Data.step?, hindex]
    | some place => simpa [Data.step?, hindex] using hplace place
  | _ => cases w <;> simp_all [outline, Data.step?]

theorem Data.outline_foldlM_step? {v w : Value} (h : outline v = outline w) (steps : List Text) :
    (steps.foldlM Data.step? v).map outline = (steps.foldlM Data.step? w).map outline := by
  induction steps generalizing v w with
  | nil => simpa using h
  | cons step rest ih =>
    have hstep := Data.outline_step? h step
    rw [List.foldlM_cons, List.foldlM_cons]
    cases hv : Data.step? v step <;> cases hw : Data.step? w step <;>
      simp only [hv, hw, Option.map_some, Option.map_none, Option.some.injEq, reduceCtorEq] at hstep
    · rfl
    · exact ih hstep

/-- What stands at the end of a path depends on the outlines of the data. -/
theorem Data.outline_lookup? {a b : Data} (h : outlineMembers a = outlineMembers b)
    (steps : List Text) :
    (Data.lookup? a steps).map outline = (Data.lookup? b steps).map outline := by
  cases steps with
  | nil => rfl
  | cons first rest =>
    have hfirst : (Dict.find? a first).map outline = (Dict.find? b first).map outline := by
      rw [← Object.find?_outlineMembers, h, Object.find?_outlineMembers]
    rw [Data.lookup?, Data.lookup?]
    cases ha : Dict.find? a first <;> cases hb : Dict.find? b first <;>
      simp only [ha, hb, Option.map_some, Option.map_none, Option.some.injEq, reduceCtorEq]
        at hfirst
    · rfl
    · exact Data.outline_foldlM_step? hfirst rest

namespace Template

variable {model other : Model}

theorem outline_operand (hdata : outlineMembers model.data = outlineMembers other.data)
    (operand : Operand) :
    outline (operand.value model.data) = outline (operand.value other.data) := by
  cases operand with
  | literal value => rfl
  | path steps =>
    have hlookup := Data.outline_lookup? hdata steps
    rw [Operand.value, Operand.value]
    cases ha : Data.lookup? model.data steps <;> cases hb : Data.lookup? other.data steps <;>
      simp only [ha, hb, Option.map_some, Option.map_none, Option.some.injEq, reduceCtorEq]
        at hlookup
    · rfl
    · exact hlookup

theorem foldl_applyFilter (hplain : model.IsPlain) (value : Value) (filters : List Call) :
    filters.foldl applyFilter (value, model) = (value, model) := by
  induction filters with
  | nil => rfl
  | cons filter rest ih =>
    have hfilter : applyFilter (value, model) filter = (value, model) := by
      simp [applyFilter, Model.filter?, hplain.filters]
    rw [List.foldl_cons, hfilter, ih]

/-- The value of an expression in a plain model: that of its operand, and null for a call. -/
theorem evaluate_plain (hplain : model.IsPlain) (text : Text) :
    evaluate model text =
      (match Expression.read? text with
        | some ⟨.operand operand, _⟩ => operand.value model.data
        | _ => .null, model) := by
  unfold evaluate
  cases Expression.read? text with
  | none => rfl
  | some expression =>
    obtain ⟨head, filters⟩ := expression
    cases head with
    | call c =>
      have hcall : (Head.call c).eval model = (.null, model) := by
        simp [Head.eval, Model.call?, hplain.methods]
      show filters.foldl applyFilter ((Head.call c).eval model) = _
      rw [hcall, foldl_applyFilter hplain]
    | operand operand => exact foldl_applyFilter hplain (operand.value model.data) filters

theorem display_evaluate (hplain : model.IsPlain) (hother : other.IsPlain)
    (hdata : outlineMembers model.data = outlineMembers other.data) (text : Text) :
    (evaluate model text).1.display = (evaluate other text).1.display := by
  rw [evaluate_plain hplain, evaluate_plain hother]
  apply display_eq_of_outline
  cases Expression.read? text with
  | none => rfl
  | some expression =>
    obtain ⟨head, filters⟩ := expression
    cases head with
    | call c => rfl
    | operand operand => exact outline_operand hdata operand

theorem fillParts_snd (hplain : model.IsPlain) (parts : List Part) :
    (fillParts model parts).2 = model := by
  induction parts with
  | nil => rfl
  | cons part rest ih =>
    cases part with
    | copied c => exact ih
    | bound binding =>
      have hbinding : (binding.fill model).2 = model := by
        rw [Binding.fill, evaluate_plain hplain]
      calc
        (fillParts model (.bound binding :: rest)).2 = (fillParts (binding.fill model).2 rest).2 :=
          rfl
        _ = model := by rw [hbinding, ih]

/-- A binding in a plain model shows the value of its expression. -/
theorem fillParts_bound (hplain : model.IsPlain) (binding : Binding) (rest : List Part) :
    (fillParts model (.bound binding :: rest)).1 =
      (binding.fill model).1 ++ (fillParts model rest).1 := by
  have hbinding : (binding.fill model).2 = model := by
    rw [Binding.fill, evaluate_plain hplain]
  calc
    (fillParts model (.bound binding :: rest)).1 =
        (binding.fill model).1 ++ (fillParts (binding.fill model).2 rest).1 := rfl
    _ = _ := by rw [hbinding]

theorem fillParts_fst (hplain : model.IsPlain) (hother : other.IsPlain)
    (hdata : outlineMembers model.data = outlineMembers other.data) (parts : List Part) :
    (fillParts model parts).1 = (fillParts other parts).1 := by
  induction parts with
  | nil => rfl
  | cons part rest ih =>
    cases part with
    | copied c =>
      show c :: (fillParts model rest).1 = c :: (fillParts other rest).1
      rw [ih]
    | bound binding =>
      have hbinding : (binding.fill model).1 = (binding.fill other).1 := by
        simp only [Binding.fill, display_evaluate hplain hother hdata]
      rw [fillParts_bound hplain, fillParts_bound hother, hbinding, ih]

/-- Rendering a template leaves a plain model as it is. -/
theorem render_snd (hplain : model.IsPlain) (input : Input) : (render model input).2 = model :=
  fillParts_snd hplain (parts input.content)

/-- The page of a plain model depends on the outlines of its data. -/
theorem render_fst (hplain : model.IsPlain) (hother : other.IsPlain)
    (hdata : outlineMembers model.data = outlineMembers other.data) (input : Input) :
    (render model input).1 = (render other input).1 := by
  have hfill : (fill model input.content).1 = (fill other input.content).1 :=
    fillParts_fst hplain hother hdata (parts input.content)
  show (if input.isScoped then wrap input.id input.attributes (fill model input.content).1
    else (fill model input.content).1) = _
  rw [hfill]
  rfl

end Template

end ComponentMarkup
