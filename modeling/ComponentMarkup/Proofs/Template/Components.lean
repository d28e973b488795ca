import ComponentMarkup.Template.Render

/-!
# Templates and child components

Filling a template neither asks for the child components of a model nor changes them: with other
components it gives the same page, and the model afterwards has these.
-/

namespace ComponentMarkup

open Json

namespace Model

/-- The model with other child components. -/
def withComponents (model : Model) (components : ComponentMap) : Model :=
  { model with components }

variable (model : Model) (components : ComponentMap)

@[simp] theorem withComponents_data : (model.withComponents components).data = model.data := rfl

@[simp] theorem withComponents_self : model.withComponents model.components = model := rfl

@[simp] theorem call?_withComponents (name : Text) (arguments : List Value) :
    (model.withComponents components).call? name arguments =
      (model.call? name arguments).map (Prod.map id (withComponents · components)) := by
  simp only [call?, Option.map_map]
  rfl

@[simp] theorem filter?_withComponents (name : Text) (value : Value) (arguments : List Value) :
    (model.withComponents components).filter? name value arguments =
      (model.filter? name value arguments).map (Prod.map id (withComponents · components)) := by
  simp only [filter?, Option.map_map]
  rfl

end Model

namespace Template

variable (model : Model) (components : ComponentMap)

theorem eval_withComponents (head : Head) :
    head.eval (model.withComponents components) =
      Prod.map id (Model.withComponents · components) (head.eval model) := by
  cases head with
  | call c =>
    rw [Head.eval, Model.call?_withComponents, Head.eval, Model.withComponents_data]
    cases model.call? c.name (c.arguments.map (Operand.value model.data)) <;> rfl
  | operand o => rfl

theorem applyFilter_withComponents (value : Value) (filter : Call) :
    applyFilter (value, model.withComponents components) filter =
      Prod.map id (Model.withComponents · components) (applyFilter (value, model) filter) := by
  simp only [applyFilter, Model.filter?_withComponents, Model.withComponents_data]
  cases model.filter? filter.name value (filter.arguments.map (Operand.value model.data)) <;> rfl

theorem foldl_applyFilter_withComponents (filters : List Call) (state : Value × Model) :
    filters.foldl applyFilter (state.1, state.2.withComponents components) =
      Prod.map id (Model.withComponents · components) (filters.foldl applyFilter state) := by
  induction filters generalizing state with
  | nil => rfl
  | cons filter rest ih =>
    rw [List.foldl_cons, List.foldl_cons, applyFilter_withComponents]
    exact ih (applyFilter state filter)

theorem evaluate_withComponents (text : Text) :
    evaluate (model.withComponents components) text =
      Prod.map id (Model.withComponents · components) (evaluate model text) := by
  unfold evaluate
  cases Expression.read? text with
  | none => rfl
  | some expression =>
    show expression.filters.foldl applyFilter (expression.head.eval _) = _
    rw [eval_withComponents]
    exact foldl_applyFilter_withComponents components expression.filters _

theorem fillParts_withComponents (parts : List Part) :
    fillParts (model.withComponents components) parts =
      Prod.map id (Model.withComponents · components) (fillParts model parts) := by
  induction parts generalizing model with
  | nil => rfl
  | cons part rest ih =>
    cases part with
    | copied c =>
      rw [fillParts, ih]
      rfl
    | bound binding =>
      have hfill : binding.fill (model.withComponents components) =
          Prod.map id (Model.withComponents · components) (binding.fill model) := by
        rw [Binding.fill, evaluate_withComponents]
        rfl
      rw [fillParts, hfill]
      simp only [Prod.map, id_eq, ih]
      rfl

/-- With other child components a template gives the same page, and it keeps them. -/
theorem render_withComponents (input : Input) :
    render (model.withComponents components) input =
      Prod.map id (Model.withComponents · components) (render model input) := by
  rw [render, fill, fillParts_withComponents]
  rfl

/-- Rendering a template keeps the child components. -/
theorem render_components (input : Input) :
    (render model input).2.components = model.components := by
  have hrender := render_withComponents model model.components input
  rw [Model.withComponents_self] at hrender
  rw [hrender]
  rfl

end Template

end ComponentMarkup
