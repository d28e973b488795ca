import ComponentMarkup.Proofs.Template.Children
import ComponentMarkup.Proofs.Template.Reading

/-!
# Pages show what they mean

The tree of a written expression has the value that the expression means, and it leaves the data
that the expression leaves. A page is cut into its texts and its bindings, so filling it copies the
texts and shows the values of the expressions one after the other, each in the data that the one
before has left.
-/

namespace ComponentMarkup

/-- The model with other data. -/
def Model.withData (model : Model) (data : Data) : Model := { model with data }

namespace Template.Surface

open Text Json

/-! ## Values -/

theorem Index.index?_digits (index : Index) :
    Data.index? index.digits = some (Nat.ofDigitChars 10 index.digits 0) := by
  have hdigits := index.isDigit
  have hne := index.ne_nil
  generalize index.digits = digits at hdigits hne
  have hplus (rest : Text) : digits ≠ '+' :: rest := by
    rintro rfl
    exact absurd (hdigits '+' List.mem_cons_self) (by decide)
  unfold Data.index?
  split
  · exact absurd rfl (hplus _)
  · simpa [hne] using hdigits

theorem Name.index?_text (name : Name) : Data.index? name.text = none := by
  have hdigit := isDigit_of_startsIdentifier name.starts
  have hplus : name.first ∉ ['+'] := not_mem_of_any (by decide) name.starts
  rw [List.mem_singleton] at hplus
  simp [Data.index?, Name.text, hplus, hdigit]

theorem Segment.step?_text (segment : Segment) (value : Value) :
    Data.step? value segment.text = segment.step? value := by
  cases value with
  | array items =>
    cases segment with
    | name n => simp [Data.step?, Segment.step?, Segment.text, n.index?_text]
    | index place => simp [Data.step?, Segment.step?, Segment.text, place.index?_digits]
  | _ => rfl

theorem Path.lookup?_names (path : Path) (data : Data) :
    (Data.lookup? data path.names).getD .null = path.value data := by
  have hstep : (fun value (step : Segment) ↦ Data.step? value step.text) = Segment.step? := by
    funext value step
    exact step.step?_text value
  rw [Path.value, Path.names, Data.lookup?]
  simp only [List.foldlM_map, hstep]

theorem Numeral.value_tree (numeral : Numeral) (data : Data) :
    numeral.tree.value data = numeral.value data := by
  unfold Numeral.tree Numeral.value
  cases numeral.number.value? with
  | none => rfl
  | some value => cases value <;> rfl

theorem Atom.value_tree (atom : Atom) (data : Data) : atom.tree.value data = atom.value data := by
  cases atom with
  | path p => exact p.lookup?_names data
  | number n => exact n.value_tree data
  | _ => rfl

theorem Call.values_tree (call : Call) (data : Data) :
    call.tree.arguments.map (Operand.value data) = call.values data := by
  rw [Call.tree, List.map_map]
  apply List.map_congr_left
  exact fun argument _ ↦ argument.atom.value_tree data

/-! ## Calls and filters -/

section Eval

variable (model : Model) (data : Data)

theorem Head.eval_tree (head : Head) :
    head.tree.eval (model.withData data) = Prod.map id model.withData (head.value model data) := by
  cases head with
  | atom a =>
    rw [Head.value, ← a.value_tree data]
    rfl
  | call c =>
    rw [Head.value, ← c.values_tree data, Head.tree, Template.Head.eval, Model.call?]
    show ((Dict.find? model.methods c.name.text).map _).getD _ = _
    cases Dict.find? model.methods c.name.text <;> rfl

theorem Filter.applyFilter_tree (filter : Filter) (value : Value) :
    applyFilter (value, model.withData data) filter.tree =
      Prod.map id model.withData (filter.send model (value, data)) := by
  have hname : filter.tree.name = filter.target := by cases filter <;> rfl
  have hvalues : filter.tree.arguments.map (Operand.value data) = filter.values data := by
    cases filter with
    | name n => rfl
    | call c => exact c.values_tree data
  rw [Filter.send, ← hname, ← hvalues, applyFilter, Model.filter?]
  show ((Dict.find? model.filters filter.tree.name).map _).getD _ = _
  cases Dict.find? model.filters filter.tree.name <;> rfl

theorem foldl_applyFilter_tree (stages : List Stage) (state : Value × Data) :
    (stages.map fun stage ↦ stage.filter.tree).foldl applyFilter
        (Prod.map id model.withData state) =
      Prod.map id model.withData
        (stages.foldl (fun state stage ↦ stage.filter.send model state) state) := by
  induction stages generalizing state with
  | nil => rfl
  | cons stage stages ih =>
    rw [List.map_cons, List.foldl_cons, List.foldl_cons, ← ih]
    congr 1
    exact stage.filter.applyFilter_tree model state.2 state.1

/-- The tree of an expression has its value and leaves its data. -/
theorem Expression.eval_tree (expression : Expression) :
    expression.tree.eval (model.withData data) =
      Prod.map id model.withData (expression.value model data) := by
  have hhead := expression.head.eval_tree model data
  rw [Template.Expression.eval, Expression.value, ← foldl_applyFilter_tree, ← hhead]
  rfl

theorem Expression.evaluate_text (expression : Expression) :
    evaluate (model.withData data) expression.text =
      Prod.map id model.withData (expression.value model data) := by
  rw [evaluate, expression.read?_text]
  exact expression.eval_tree model data

end Eval

/-! ## Bindings -/

/-- The texts that close bindings. -/
def IsClosing (closing : Text) : Prop := ∃ more, closing = '\x7d' :: more

variable {closing : Text}

theorem IsClosing.after?_of_ne (hclosing : IsClosing closing) {c : Char} (h : c ≠ '\x7d')
    (text : Text) : after? closing (c :: text) = none := by
  obtain ⟨more, rfl⟩ := hclosing
  rw [after?, if_neg (Ne.symm h)]

/-- No closing braces stand where a character that is no brace is still to come. -/
theorem IsClosing.after?_dropWhile (hclosing : IsClosing closing) {inside : Text}
    (hne : inside ≠ []) (hbrace : HasNoBrace inside)
    (hlast : ∀ c ∈ inside.getLast?, Text.isBlank c = false) (behind : Text) :
    after? closing ((inside ++ behind).dropWhile Text.isBlank) = none := by
  have hdrop : inside.dropWhile Text.isBlank ≠ [] := by
    intro hnil
    rw [List.dropWhile_eq_nil_iff] at hnil
    have hblank := hnil (inside.getLast hne) (List.getLast_mem hne)
    rw [hlast _ (List.getLast?_eq_some_getLast hne)] at hblank
    exact Bool.noConfusion hblank
  obtain ⟨c, rest, hrest⟩ := List.exists_cons_of_ne_nil hdrop
  have hmem : c ∈ inside := (List.dropWhile_suffix _).subset (hrest ▸ List.mem_cons_self)
  rw [List.dropWhile_append, hrest]
  exact hclosing.after?_of_ne (hbrace c hmem).2 (rest ++ behind)

/-- An expression ends in front of the white space that its closing braces follow. -/
theorem IsClosing.upTo?_append (hclosing : IsClosing closing) {inside : Text}
    (hbrace : HasNoBrace inside) (hlast : ∀ c ∈ inside.getLast?, Text.isBlank c = false)
    (gap : Gap) (rest : Text) :
    upTo? closing (inside ++ (gap.text ++ (closing ++ rest))) = some (inside, rest) := by
  induction inside with
  | nil =>
    have hafter : after? closing ((gap.text ++ (closing ++ rest)).dropWhile Text.isBlank) =
        some rest := by
      rw [List.dropWhile_append_of_pos gap.isBlank, after?_eq_some_iff]
      obtain ⟨more, rfl⟩ := hclosing
      rfl
    rw [List.nil_append]
    cases htext : gap.text ++ (closing ++ rest) with
    | nil =>
      obtain ⟨more, rfl⟩ := hclosing
      simp at htext
    | cons c text =>
      rw [htext] at hafter
      rw [upTo?, hafter]
  | cons c inside ih =>
    have hnone := hclosing.after?_dropWhile (List.cons_ne_nil c inside) hbrace hlast
      (gap.text ++ (closing ++ rest))
    have hrest := ih (hasNoBrace_cons.1 hbrace).2 fun d hd ↦ hlast d (List.mem_getLast?_cons hd)
    rw [List.cons_append] at hnone ⊢
    rw [upTo?, hnone, hrest]
    rfl

theorem IsClosing.expression?_append (hclosing : IsClosing closing) (expression : Expression)
    (before after : Gap) (rest : Text) :
    expression? closing (before.text ++ expression.text ++ (after.text ++ (closing ++ rest))) =
      some (expression.text, rest) := by
  have hsolid := expression.isSolid
  have hbrace := expression.hasNoBrace
  rw [expression?, hsolid.dropWhile before.isBlank]
  obtain ⟨c, inside, htext⟩ := List.exists_cons_of_ne_nil hsolid.ne_nil
  rw [htext] at hsolid hbrace ⊢
  have hlast : ∀ c ∈ inside.getLast?, Text.isBlank c = false :=
    fun d hd ↦ hsolid.last d (List.mem_getLast?_cons hd)
  have hread := hclosing.upTo?_append (hasNoBrace_cons.1 hbrace).2 hlast after rest
  simp [hread]

theorem bindingWith?_append (hclosing : IsClosing closing) (isEscaped : Bool) (opening : Text)
    (expression : Expression) (before after : Gap) (rest : Text) :
    bindingWith? isEscaped opening closing
        (opening ++ (before.text ++ expression.text ++ (after.text ++ (closing ++ rest)))) =
      some (⟨isEscaped, expression.text⟩, rest) := by
  rw [bindingWith?, after?_eq_some_iff.2 rfl, Option.bind_some,
    hclosing.expression?_append expression before after rest]
  rfl

theorem isClosing_double : IsClosing closeDouble := ⟨['\x7d'], rfl⟩

theorem isClosing_triple : IsClosing closeTriple := ⟨['\x7d', '\x7d'], rfl⟩

/-- No third brace stands behind the two braces of an escaped binding. -/
theorem bindingWith?_triple_of_double (isEscaped : Bool) (expression : Expression) (before : Gap)
    (behind : Text) :
    bindingWith? isEscaped openTriple closeTriple
      (openDouble ++ (before.text ++ expression.text ++ behind)) = none := by
  have hbrace : HasNoBrace (before.text ++ expression.text) :=
    hasNoBrace_append.2 ⟨before.hasNoBrace, expression.hasNoBrace⟩
  have hne : before.text ++ expression.text ≠ [] :=
    List.append_ne_nil_of_right_ne_nil _ expression.isSolid.ne_nil
  obtain ⟨c, inside, hinside⟩ := List.exists_cons_of_ne_nil hne
  rw [hinside] at hbrace ⊢
  have hc : c ≠ '\x7b' := (hbrace c List.mem_cons_self).1
  have hafter : after? openTriple (openDouble ++ (c :: inside ++ behind)) = none := by
    simp [openTriple, openDouble, after?, Ne.symm hc]
  rw [bindingWith?, hafter, Option.bind_none]

/-- A written binding is read, and what follows it is left. -/
theorem Binding.binding?_text (binding : Binding) (rest : Text) :
    binding? (binding.text ++ rest) =
      some (⟨binding.isEscaped, binding.expression.text⟩, rest) := by
  have htext : binding.text ++ rest = binding.opening ++ (binding.before.text ++
      binding.expression.text ++ (binding.after.text ++ (binding.closing ++ rest))) := by
    simp [Binding.text]
  rw [htext, binding?, Binding.opening, Binding.closing]
  cases binding.isEscaped with
  | true =>
    rw [if_pos rfl, if_pos rfl, bindingWith?_triple_of_double,
      bindingWith?_append isClosing_double]
  | false =>
    rw [if_neg Bool.false_ne_true, if_neg Bool.false_ne_true,
      bindingWith?_append isClosing_triple]

/-! ## Pages -/

variable (model : Model)

theorem Binding.fill_text (binding : Binding) (data : Data) :
    (⟨binding.isEscaped, binding.expression.text⟩ : Template.Binding).fill (model.withData data) =
      Prod.map binding.shown model.withData (binding.expression.value model data) := by
  rw [Template.Binding.fill, binding.expression.evaluate_text]
  rfl

theorem Piece.parts_append (piece : Piece) (rest : Text) :
    parts (piece.text ++ rest) = piece.literal.text.map Part.copied ++
      .bound ⟨piece.binding.isEscaped, piece.binding.expression.text⟩ :: parts rest := by
  rw [Piece.text, List.append_assoc,
    Template.parts_append piece.literal.not_open fun h ↦ absurd h piece.not_brace,
    parts_of_binding? (piece.binding.binding?_text rest)]

theorem Literal.parts_text (literal : Literal) :
    parts literal.text = literal.text.map Part.copied := by
  have hparts := Template.parts_append (t := []) literal.not_open fun _ ↦ by simp
  have hnil : parts [] = [] := by rw [parts]
  rwa [List.append_nil, hnil, List.append_nil] at hparts

theorem fillParts_pieces (pieces : List Piece) (last : Literal) (data : Data) :
    fillParts (model.withData data) (parts (pieces.flatMap Piece.text ++ last.text)) =
      Prod.map (· ++ last.text) model.withData (showPieces model data pieces) := by
  induction pieces generalizing data with
  | nil =>
    have hlast := fillParts_copied (model.withData data) last.text []
    rw [List.append_nil] at hlast
    rw [List.flatMap_nil, List.nil_append, last.parts_text, hlast]
    simp [fillParts, showPieces]
  | cons piece pieces ih =>
    rw [List.flatMap_cons, List.append_assoc, piece.parts_append, fillParts_copied]
    simp only [fillParts, piece.binding.fill_text, showPieces, Prod.map, ih]
    simp

/-- A page is rendered as what it means: its texts as they are and the values of its expressions
between them, found from left to right, each in the data that the calls before it have left. -/
theorem Page.render_eq_meaning (page : Page) (attributes : Attributes) (id : Text) :
    render model ⟨attributes, page.text, id, false⟩ =
      ((page.meaning model).1, model.withData (page.meaning model).2) := by
  have hpieces := fillParts_pieces model page.pieces page.last model.data
  have hself : model.withData model.data = model := rfl
  rw [hself] at hpieces
  have hfill : fill model page.text =
      ((page.meaning model).1, model.withData (page.meaning model).2) := hpieces
  rw [render, hfill]
  rfl

/-! ## A page -/

def space : Gap := ⟨[' '], by simp [Text.isBlank]⟩

def two : Numeral where
  number := Number.ofNat 2
  text := ['2']
  isWritten := .mk (Number.isWhole_toDigits 2) .absent .absent

/-- The page `Hi \x7b\x7b user.name | wrap('(,|)', 2) \x7d\x7d!`. -/
def greetingPage : Page where
  pieces := [{
    literal := ⟨"Hi ".toList, by decide⟩
    not_brace := by decide
    binding := {
      isEscaped := true
      before := space
      expression := {
        head := .atom (.path {
          first := ⟨'u', "ser".toList, rfl, by simp [continuesIdentifier]⟩
          steps := [.name ⟨'n', "ame".toList, rfl, by simp [continuesIdentifier]⟩]
          not_keyword := by decide })
        stages := [{
          before := space
          after := space
          filter := .call {
            name := ⟨'w', "rap".toList, rfl, by simp [continuesIdentifier]⟩
            gap := .none
            inner := .none
            arguments := [
              ⟨.none, .quoted ⟨'\'', ['(', ',', '|', ')'], by decide, by decide, by decide⟩, .none⟩,
              ⟨space, .number two, .none⟩] } }] }
      after := space } }]
  last := ⟨['!'], by decide⟩

/-- A model whose only filter puts its first argument around what goes through it. -/
def greetingModel : Model where
  data := [("user".toList, .object [("name".toList, .string ['A', '&', 'B'])])]
  methods := []
  filters := [("wrap".toList, fun data values ↦
    match values with
    | [.string text, .string mark, .int 2] => (.string (mark ++ text ++ mark), data)
    | _ => (.null, data))]
  components := []
  props := []

example : greetingPage.text = "Hi \x7b\x7b user.name | wrap('(,|)', 2) \x7d\x7d!".toList := rfl

example : (greetingPage.meaning greetingModel).1 = "Hi (,|)A&amp;B(,|)!".toList := rfl

end Template.Surface

end ComponentMarkup
