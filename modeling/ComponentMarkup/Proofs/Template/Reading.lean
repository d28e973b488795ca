import ComponentMarkup.Proofs.FileTree.Names
import ComponentMarkup.Proofs.Template.Splitting

/-!
# Written expressions are read back

Every written form has its tree, and reading the text of the form gives that tree, whatever white
space stands around it.
-/

namespace ComponentMarkup.Template.Surface

open Text Json

/-! ## Trees -/

/-- A number that is too large is read as a path, with steps between its points. -/
def Numeral.tree (numeral : Numeral) : Operand :=
  match numeral.number.value? with
  | some (.int n) => .literal (.int n)
  | some (.float x) => .literal (.float x)
  | none => .path (splitOn '.' numeral.text)

def Atom.tree : Atom → Operand
  | path p => .path p.names
  | number n => n.tree
  | .bool value => .literal (.bool value)
  | .null => .literal .null
  | quoted q => .literal (.string q.inside)

def Call.tree (call : Call) : Template.Call :=
  ⟨call.name.text, call.arguments.map fun argument ↦ argument.atom.tree⟩

def Head.tree : Head → Template.Head
  | atom a => .operand a.tree
  | call c => .call c.tree

def Filter.tree : Filter → Template.Call
  | name n => ⟨n.text, []⟩
  | call c => c.tree

def Expression.tree (expression : Expression) : Template.Expression :=
  ⟨expression.head.tree, expression.stages.map fun stage ↦ stage.filter.tree⟩

/-! ## Operands -/

theorem Quoted.unquote?_text (quoted : Quoted) : unquote? quoted.text = some quoted.inside := by
  have hquote : (decide (quoted.quote = '\'') || decide (quoted.quote = '"')) = true := by
    rw [Bool.or_eq_true, decide_eq_true_eq, decide_eq_true_eq]
    exact quoted.isQuote
  rw [Quoted.text, List.cons_append, unquote?, hquote]
  simp

theorem unquote?_of_isAtomChar {text : Text} (h : ∀ c ∈ text, isAtomChar c = true) :
    unquote? text = none := by
  cases text with
  | nil => rfl
  | cons c rest =>
    have hquotes : c ∉ ['\'', '"'] := not_mem_of_any (by decide) (h c List.mem_cons_self)
    simp only [List.mem_cons, List.not_mem_nil, or_false, not_or] at hquotes
    simp [unquote?, hquotes]

/-- An atom that is not quoted is a literal that is read, or else a path. -/
theorem Atom.read_of_isAtomChar (atom : Atom) (before after : Gap)
    (h : ∀ c ∈ atom.text, isAtomChar c = true) :
    Operand.read (before.text ++ atom.text ++ after.text) =
      (if isLiteral atom.text then Json.Value.read? atom.text else none).elim
        (.path (pathSteps atom.text)) .literal := by
  unfold Operand.read
  simp only [atom.isSolid.trim before.isBlank after.isBlank, unquote?_of_isAtomChar h]
  generalize (if isLiteral atom.text then Json.Value.read? atom.text else none) = value?
  cases value? <;> rfl

theorem Path.isSolid_of_mem (path : Path) {name : Text} (h : name ∈ path.names) : IsSolid name := by
  have hchars : ∀ c ∈ name, isAtomChar c = true :=
    fun c hc ↦ isAtomChar_of_continues (path.continues_of_mem name h c hc)
  apply isSolid_of_forall _ hchars
  rcases List.mem_cons.1 h with rfl | h
  · exact path.first.isSolid.ne_nil
  · obtain ⟨step, -, rfl⟩ := List.mem_map.1 h
    cases step with
    | name n => exact n.isSolid.ne_nil
    | index place => exact place.ne_nil

theorem Path.splitOn_text (path : Path) : splitOn '.' path.text = path.names := by
  have hpoint : ∀ name ∈ path.names, '.' ∉ name := by
    intro name hname hmem
    exact absurd (path.continues_of_mem name hname '.' hmem) (by decide)
  rw [Text.splitOn_eq]
  exact List.splitOn_intercalate '.' hpoint (List.cons_ne_nil _ _)

theorem Path.pathSteps_text (path : Path) : pathSteps path.text = path.names := by
  have htrim : ∀ name ∈ path.names, trim name = name :=
    fun name hname ↦ (path.isSolid_of_mem hname).trim_eq
  rw [pathSteps, path.splitOn_text, List.map_congr_left htrim, List.map_id']

theorem isDigit_of_startsIdentifier {c : Char} (h : startsIdentifier c = true) :
    c.isDigit = false := by
  rw [Bool.eq_false_iff]
  intro hdigit
  simp only [startsIdentifier, Bool.or_eq_true, decide_eq_true_eq, isAlpha_iff] at h
  rw [Char.isDigit_iff_toNat] at hdigit
  rcases h with ((h | h) | rfl) | rfl
  · exact absurd (h.1.trans hdigit.2) (by decide)
  · exact absurd (h.1.trans hdigit.2) (by decide)
  · exact absurd hdigit.2 (by decide)
  · exact absurd hdigit.1 (by decide)

/-- A path does not look like a literal. -/
theorem Path.isLiteral_text (path : Path) : isLiteral path.text = false := by
  have hkeyword : ∀ word ∈ ["true".toList, "false".toList, "null".toList], path.text ≠ word := by
    intro word hword htext
    have hsplit : splitOn '.' word = [word] := by
      simp only [String.reduceToList, List.mem_cons, List.not_mem_nil, or_false] at hword
      rcases hword with rfl | rfl | rfl <;> rfl
    have hnames := path.splitOn_text
    rw [htext, hsplit, Path.names, List.cons.injEq] at hnames
    exact path.not_keyword (hnames.1 ▸ hword)
  obtain ⟨rest, hrest⟩ := path.exists_text_eq
  have hdigit := isDigit_of_startsIdentifier path.first.starts
  have hminus : path.first.first ∉ ['-'] := not_mem_of_any (by decide) path.first.starts
  rw [List.mem_singleton] at hminus
  simp only [List.mem_cons, List.not_mem_nil, or_false, forall_eq_or_imp, forall_eq] at hkeyword
  obtain ⟨htrue, hfalse, hnull⟩ := hkeyword
  unfold isLiteral
  rw [decide_eq_false htrue, decide_eq_false hfalse, decide_eq_false hnull, hrest]
  simp [hdigit, hminus]

theorem Path.read_text (path : Path) (before after : Gap) :
    Operand.read (before.text ++ path.text ++ after.text) = .path path.names := by
  have hread := (Atom.path path).read_of_isAtomChar before after path.isAtomChar_of_mem
  rw [Atom.text, path.isLiteral_text, path.pathSteps_text] at hread
  exact hread

theorem Numeral.isLiteral_text (numeral : Numeral) : isLiteral numeral.text = true := by
  obtain ⟨c, rest, hrest, hc⟩ := numeral.exists_text_eq
  unfold isLiteral
  rw [hrest]
  rcases hc with rfl | hc
  · simp
  · simp [hc]

theorem Numeral.read?_text (numeral : Numeral) :
    Json.Value.read? numeral.text = numeral.number.value?.map fun
      | .int n => .int n
      | .float x => .float x := by
  have hread := numeral.isWritten.spells.read?
  rw [Json.Value.read?, hread]
  rfl

/-- No step between the points of a number has white space around it. -/
theorem Numeral.pathSteps_text (numeral : Numeral) :
    pathSteps numeral.text = splitOn '.' numeral.text := by
  have htrim : ∀ piece ∈ splitOn '.' numeral.text, trim piece = piece := by
    intro piece hpiece
    have hchars : ∀ c ∈ piece, isAtomChar c = true :=
      fun c hc ↦ numeral.isAtomChar_of_mem c (Text.subset_of_mem_splitOn hpiece hc)
    by_cases hne : piece = []
    · rw [hne]
      rfl
    · exact (isSolid_of_forall hne hchars).trim_eq
  rw [pathSteps, List.map_congr_left htrim, List.map_id']

theorem Numeral.read_text (numeral : Numeral) (before after : Gap) :
    Operand.read (before.text ++ numeral.text ++ after.text) = numeral.tree := by
  have hread := (Atom.number numeral).read_of_isAtomChar before after numeral.isAtomChar_of_mem
  rw [Atom.text, numeral.isLiteral_text, if_pos rfl, numeral.read?_text, numeral.pathSteps_text]
    at hread
  rw [hread, Numeral.tree]
  cases numeral.number.value? with
  | none => rfl
  | some value => cases value <;> rfl

/-- An atom is read back, whatever white space stands around it. -/
theorem Atom.read_text (atom : Atom) (before after : Gap) :
    Operand.read (before.text ++ atom.text ++ after.text) = atom.tree := by
  cases atom with
  | path p => exact p.read_text before after
  | number n => exact n.read_text before after
  | bool value =>
    have hread := (Atom.bool value).read_of_isAtomChar before after
      ((Atom.bool value).isAtomChar_of_mem (by simp))
    rw [hread]
    cases value <;> with_unfolding_all rfl
  | null =>
    have hread := Atom.null.read_of_isAtomChar before after (Atom.null.isAtomChar_of_mem (by simp))
    rw [hread]
    with_unfolding_all rfl
  | quoted q =>
    unfold Operand.read
    simp only [Atom.text, q.isSolid.trim before.isBlank after.isBlank, q.unquote?_text]
    rfl

/-! ## Calls -/

/-- White space after white space. -/
def Gap.append (before after : Gap) : Gap where
  text := before.text ++ after.text
  isBlank := List.forall_mem_append.2 ⟨before.isBlank, after.isBlank⟩

/-- No white space. -/
def Gap.none : Gap := ⟨[], List.forall_mem_nil _⟩

theorem callParts?_of_not_mem {text : Text} (h : '(' ∉ text) : callParts? text = none := by
  cases text with
  | nil => rfl
  | cons c rest =>
    have hrest : '(' ∉ (rest.dropWhile continuesName).dropWhile Text.isBlank := by
      intro hmem
      apply h
      apply List.mem_cons_of_mem c
      exact (List.dropWhile_suffix _).subset ((List.dropWhile_suffix _).subset hmem)
    rw [callParts?]
    split
    · split
      · rename_i hparenthesis
        rw [hparenthesis] at hrest
        exact absurd List.mem_cons_self hrest
      · rfl
    · rfl

theorem callParts?_of_isAtomChar {text : Text} (h : ∀ c ∈ text, isAtomChar c = true) :
    callParts? text = none := by
  apply callParts?_of_not_mem
  exact fun hmem ↦ absurd (h '(' hmem) (by decide)

theorem Quoted.callParts?_text (quoted : Quoted) : callParts? quoted.text = none := by
  have hstarts : startsName quoted.quote = false := by
    rcases quoted.isQuote with h | h <;> rw [h] <;> rfl
  rw [Quoted.text, List.cons_append, callParts?, hstarts]
  rfl

theorem Atom.callParts?_text (atom : Atom) : callParts? atom.text = none := by
  by_cases h : ∃ quoted, atom = .quoted quoted
  · obtain ⟨quoted, rfl⟩ := h
    exact quoted.callParts?_text
  · apply callParts?_of_isAtomChar
    exact atom.isAtomChar_of_mem fun quoted heq ↦ h ⟨quoted, heq⟩

/-- The name of a call ends where white space or the parenthesis begins. -/
theorem Call.callParts?_text (call : Call) :
    callParts? call.text = some (call.name.text, call.inside) := by
  set behind := '(' :: (call.inside ++ [')']) with hbehind
  have htext : call.text = call.name.first :: (call.name.rest ++ (call.gap.text ++ behind)) := by
    simp [Call.text, Name.text, hbehind]
  have hname : ∀ c ∈ call.name.rest, continuesName c = true :=
    fun c hc ↦ continuesName_of_continuesIdentifier (call.name.continues c hc)
  have hstop : ∀ c ∈ (call.gap.text ++ behind).head?, continuesName c = false := by
    have hgap := call.gap.isBlank
    cases hcases : call.gap.text with
    | nil =>
      rw [List.nil_append, hbehind, List.head?_cons]
      rintro c ⟨⟩
      decide +kernel
    | cons d text =>
      rw [List.cons_append, List.head?_cons]
      rintro c ⟨⟩
      apply continuesName_of_isBlank
      exact hgap d (hcases ▸ List.mem_cons_self)
  obtain ⟨htake, hdrop⟩ := takeWhile_append_of_head hname hstop
  have hblank : (call.gap.text ++ behind).dropWhile Text.isBlank = behind := by
    rw [List.dropWhile_append_of_pos call.gap.isBlank, hbehind]
    rfl
  have hstarts : startsName call.name.first = true := call.name.starts
  rw [htext, callParts?, hstarts, hdrop, hblank, htake, hbehind]
  simp [Name.text]

theorem Call.read?_text (call : Call) : Template.Call.read? call.text = some call.tree := by
  have harguments : (splitTopLevel ',' call.inside).map Operand.read =
      call.arguments.map fun argument ↦ argument.atom.tree := by
    rw [call.splitTopLevel_inside]
    cases call.arguments with
    | nil => rfl
    | cons first others =>
      have hfirst := first.atom.read_text (call.inner.append first.before) first.after
      have hothers : (others.map Argument.text).map Operand.read =
          others.map fun argument ↦ argument.atom.tree := by
        rw [List.map_map]
        apply List.map_congr_left
        exact fun argument _ ↦ argument.atom.read_text argument.before argument.after
      rw [List.map_cons, List.map_cons, hothers]
      congr 1
      simpa [Gap.append, Argument.text] using hfirst
  rw [Template.Call.read?, call.callParts?_text, Option.map_some, Call.tree, ← harguments]

/-! ## Expressions -/

theorem Head.read_text (head : Head) (before after : Gap) :
    Template.Head.read (before.text ++ head.text ++ after.text) = head.tree := by
  rw [Template.Head.read, head.isSolid.trim before.isBlank after.isBlank]
  cases head with
  | atom a =>
    rw [Head.text, Template.Call.read?, a.callParts?_text, a.read_text]
    rfl
  | call c =>
    rw [Head.text, c.read?_text]
    rfl

theorem Filter.read_text (filter : Filter) (before after : Gap) :
    Template.Call.readFilter (before.text ++ filter.text ++ after.text) = filter.tree := by
  rw [Template.Call.readFilter, filter.isSolid.trim before.isBlank after.isBlank]
  cases filter with
  | name n =>
    rw [Filter.text, Template.Call.read?, callParts?_of_isAtomChar n.isAtomChar_of_mem]
    rfl
  | call c =>
    rw [Filter.text, c.read?_text]
    rfl

theorem map_readFilter_stagePieces (before : Gap) (filter : Filter) (stages : List Stage) :
    (stagePieces (before.text ++ filter.text) stages).map Template.Call.readFilter =
      filter.tree :: stages.map fun stage ↦ stage.filter.tree := by
  induction stages generalizing before filter with
  | nil =>
    have hread := filter.read_text before .none
    rw [Gap.none, List.append_nil] at hread
    simp [stagePieces, hread]
  | cons stage stages ih =>
    rw [stagePieces, List.map_cons, filter.read_text, ih, List.map_cons]

/-- A written expression is read as its tree. -/
theorem Expression.read?_text (expression : Expression) :
    Template.Expression.read? expression.text = some expression.tree := by
  rw [Template.Expression.read?, expression.splitTopLevel_text, Expression.tree]
  cases expression.stages with
  | nil =>
    have hread := expression.head.read_text .none .none
    simp only [Gap.none, List.nil_append, List.append_nil] at hread
    simp [stagePieces, hread]
  | cons stage stages =>
    have hread := expression.head.read_text .none stage.before
    rw [Gap.none, List.nil_append] at hread
    simp [stagePieces, hread, map_readFilter_stagePieces]

end ComponentMarkup.Template.Surface
