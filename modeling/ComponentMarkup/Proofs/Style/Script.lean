import ComponentMarkup.Proofs.Component.Substitution
import ComponentMarkup.Proofs.Json.Spell
import ComponentMarkup.Proofs.Text.Solid
import ComponentMarkup.Style
import Mathlib.Data.List.Infix

/-!
# Styles in scripts

A script that puts a style into a document is code with string literals in it. A literal is read
back as its text, although a backslash stands between each `<` and the slash behind it, and no `</`
comes about: not in a literal, and not where a literal meets code. So nothing but the end of the
script closes its tag, and the script is read back as the code and the texts it was made of.
-/

namespace ComponentMarkup.Style

open Json Text

/-- What a closing tag begins with. -/
def closer : Text := ['<', '/']

theorem not_isPrefix_closer {t : Text} (h : t.head? ≠ some '/') : ¬ closer <+: '<' :: t := by
  intro hcloser
  obtain ⟨tail, htail⟩ := (List.cons_prefix_cons.1 hcloser).2
  exact h (congrArg List.head? htail.symm)

theorem not_isInfix_closer_cons {t : Text} (h : t.head? ≠ some '/') (ht : ¬ closer <:+: t) :
    ¬ closer <:+: '<' :: t := by
  rw [List.infix_cons_iff]
  exact fun hcloser ↦ hcloser.elim (not_isPrefix_closer h) ht

theorem not_isInfix_closer_append {s t : Text} (hs : '<' ∉ s) (ht : ¬ closer <:+: t) :
    ¬ closer <:+: s ++ t := by
  induction s with
  | nil => exact ht
  | cons c s ih =>
    rw [List.mem_cons, not_or] at hs
    rw [List.cons_append, List.infix_cons_iff]
    rintro (h | h)
    · exact hs.1 (List.cons_prefix_cons.1 h).1
    · exact ih hs.2 h

/-! ## Literals -/

/-- What stands between the quotes of a literal. -/
def escaped : Text → Text
  | [] => []
  | '<' :: '/' :: rest => '<' :: '\\' :: '/' :: escaped rest
  | c :: rest => escapeChar c ++ escaped rest

theorem eq_of_mem_escapeChar {c : Char} (h : '<' ∈ escapeChar c) : c = '<' := by
  have hcode : ∀ n < 0x20, '<' ∉ ['\\', 'u', '0', '0', hexDigit (n / 16), hexDigit (n % 16)] := by
    decide
  unfold escapeChar at h
  split_ifs at h with _ _ _ _ _ _ _ hlow
  all_goals first
    | exact absurd h (by decide)
    | exact absurd h (hcode _ hlow)
    | exact (List.mem_singleton.1 h).symm

theorem eq_of_head?_escapeChar_append {c : Char} {t : Text}
    (h : (escapeChar c ++ t).head? = some '/') : c = '/' := by
  unfold escapeChar at h
  split_ifs at h
  all_goals first
    | exact Option.some.inj h
    | exact absurd h (by simp)

theorem head?_of_flatMap_escapeChar (rest : Text) {text : Text}
    (h : (text.flatMap escapeChar ++ '"' :: rest).head? = some '/') : text.head? = some '/' := by
  cases text with
  | nil => simp at h
  | cons c text =>
    rw [List.flatMap_cons, List.append_assoc] at h
    rw [List.head?_cons, eq_of_head?_escapeChar_append h]

theorem head?_of_escaped (rest : Text) {text : Text}
    (h : (escaped text ++ '"' :: rest).head? = some '/') : text.head? = some '/' := by
  fun_cases escaped text with
  | case1 => simp [escaped] at h
  | case2 text => simp [escaped] at h
  | case3 c text hnot =>
    rw [escaped.eq_3 c text hnot, List.append_assoc] at h
    rw [List.head?_cons, eq_of_head?_escapeChar_append h]

theorem head?_ne_slash {c : Char} {text : Text}
    (hnot : ∀ rest, c = '<' → text = '/' :: rest → False) (hc : c = '<') :
    text.head? ≠ some '/' := by
  intro h
  obtain ⟨rest, rfl⟩ := List.head?_eq_some_iff.1 h
  exact hnot rest hc rfl

/-- Replacing in the plain literal makes what stands between the quotes. -/
theorem replaceFrom_flatMap_escapeChar (text : Text) :
    replaceFrom closer ['<', '\\', '/'] 0 (text.flatMap escapeChar ++ ['"']) =
      escaped text ++ ['"'] := by
  fun_induction escaped text with
  | case1 => rfl
  | case2 rest ih =>
    have hne : closer ≠ [] := List.cons_ne_nil _ _
    calc replaceFrom closer ['<', '\\', '/'] 0 (closer ++ (rest.flatMap escapeChar ++ ['"']))
        = ['<', '\\', '/'] ++ replaceFrom closer ['<', '\\', '/'] 0
            (rest.flatMap escapeChar ++ ['"']) := replaceFrom_self_append hne _
      _ = ['<', '\\', '/'] ++ (escaped rest ++ ['"']) := by rw [ih]
  | case3 c rest hnot ih =>
    rw [List.flatMap_cons, List.append_assoc, List.append_assoc, ← ih]
    by_cases hc : c = '<'
    · have hnext := mt (head?_of_flatMap_escapeChar []) (head?_ne_slash hnot hc)
      subst hc
      exact replaceFrom_cons _ (not_isPrefix_closer hnext)
    · exact replaceFrom_append (mt eq_of_mem_escapeChar hc) _

theorem scriptLiteral_eq (text : Text) : scriptLiteral text = '"' :: escaped text ++ ['"'] := by
  have hquote : '<' ∉ ['"'] := by decide
  calc scriptLiteral text
      = replaceFrom closer ['<', '\\', '/'] 0 (['"'] ++ (text.flatMap escapeChar ++ ['"'])) := rfl
    _ = ['"'] ++ (escaped text ++ ['"']) := by
        rw [closer, replaceFrom_append hquote, ← closer, replaceFrom_flatMap_escapeChar]

/-- The backslash before a slash is read as an escape of the slash. -/
theorem read?_escaped (text rest : Text) :
    Literal.read? (escaped text ++ '"' :: rest) = some (literalOf text, rest) := by
  fun_induction escaped text with
  | case1 => simp [Literal.read?, literalOf]
  | case2 tail ih =>
    rw [List.cons_append, Literal.read?_char (by decide) (by decide) (by decide)]
    simp [Literal.read?, Literal.shortEscape?, ih, literalOf, unitOf]
  | case3 c tail _ ih =>
    rw [List.append_assoc, Literal.read?_escapeChar, ih]
    simp [literalOf]

theorem not_isInfix_closer_escaped (text : Text) {rest : Text} (hrest : ¬ closer <:+: rest) :
    ¬ closer <:+: escaped text ++ '"' :: rest := by
  fun_induction escaped text with
  | case1 => exact not_isInfix_closer_append (s := ['"']) (by decide) hrest
  | case2 tail ih =>
    apply not_isInfix_closer_cons (by simp)
    exact not_isInfix_closer_append (s := ['\\', '/']) (by decide) ih
  | case3 c tail hnot ih =>
    rw [List.append_assoc]
    by_cases hc : c = '<'
    · have hnext := mt (head?_of_escaped rest) (head?_ne_slash hnot hc)
      subst hc
      exact not_isInfix_closer_cons hnext ih
    · exact not_isInfix_closer_append (mt eq_of_mem_escapeChar hc) ih

theorem scriptLiteral_append (text rest : Text) :
    scriptLiteral text ++ rest = '"' :: (escaped text ++ '"' :: rest) := by
  simp [scriptLiteral_eq]

theorem not_isInfix_closer_scriptLiteral (text : Text) {rest : Text} (hrest : ¬ closer <:+: rest) :
    ¬ closer <:+: scriptLiteral text ++ rest := by
  rw [scriptLiteral_append]
  exact not_isInfix_closer_append (s := ['"']) (by decide) (not_isInfix_closer_escaped text hrest)

/-- A literal is a document, which is the text. -/
theorem read?_scriptLiteral (text : Text) :
    Value.read? (scriptLiteral text) = some (.string text) := by
  have hspells : Spells (scriptLiteral text) (.string (literalOf text)) := by
    have hstep (frames : List Document.Frame) :
        Document.State.valueStep frames (.string (literalOf text)) =
          some (.after (.string (literalOf text)) frames) := rfl
    apply spells_of_token hstep (by simp)
    intro rest _
    rw [scriptLiteral_append]
    apply tokens?_cons rfl
    simp [Token.next?, read?_escaped]
  rw [Value.read?, hspells.read?]
  simp [Value.ofDocument?]

/-! ## Code with literals in it -/

/-- Code in front of each literal, with the text of the literal. -/
abbrev Pieces := List (Text × Text)

/-- Writes pieces and the code behind the last one. -/
def writeScript (pieces : Pieces) (code : Text) : Text :=
  pieces.foldr (fun piece rest ↦ piece.1 ++ scriptLiteral piece.2 ++ rest) code

/-- Reads a script in which double quotes stand around literals only: the pieces, and the code
behind the last one. -/
def readScript? (script : Text) : Option (Pieces × Text) :=
  match _h : script.dropWhile (· ≠ '"') with
  | [] => some ([], script)
  | _ :: rest =>
    match _hr : Literal.read? rest with
    | none => none
    | some (literal, after) => do
      let text ← literal.text?
      let (pieces, code) ← readScript? after
      return ((script.takeWhile (· ≠ '"'), text) :: pieces, code)
termination_by script.length
decreasing_by
  have hdrop := (List.dropWhile_suffix (l := script) (· ≠ '"')).length_le
  have hread := Literal.length_lt_of_read? _hr
  rw [_h, List.length_cons] at hdrop
  omega

/-- Code in which no literal and no tag begins. -/
structure IsCode (code : Text) : Prop where
  not_quote : '"' ∉ code
  not_angle : '<' ∉ code

section Scripts

variable {pieces : Pieces} {code : Text}

theorem writeScript_nil (code : Text) : writeScript [] code = code := rfl

theorem writeScript_cons (piece : Text × Text) (pieces : Pieces) (code : Text) :
    writeScript (piece :: pieces) code =
      piece.1 ++ (scriptLiteral piece.2 ++ writeScript pieces code) :=
  List.append_assoc _ _ _

theorem writeScript_append (front back : Pieces) (code : Text) :
    writeScript (front ++ back) code = writeScript front (writeScript back code) :=
  List.foldr_append

theorem writeScript_eq_append (pieces : Pieces) (code : Text) :
    writeScript pieces code = writeScript pieces [] ++ code := by
  induction pieces with
  | nil => rfl
  | cons piece pieces ih => rw [writeScript_cons, writeScript_cons, ih]; simp

theorem isSolid_writeScript {piece : Text × Text} (hpiece : IsSolid piece.1) (hcode : IsSolid code)
    (pieces : Pieces) : IsSolid (writeScript (piece :: pieces) code) := by
  have hsolid := hpiece.append hcode (scriptLiteral piece.2 ++ writeScript pieces [])
  rwa [List.append_assoc, List.append_assoc, ← writeScript_eq_append, ← writeScript_cons] at hsolid

theorem dropWhile_quote (h : '"' ∉ code) (rest : Text) :
    (code ++ rest).dropWhile (· ≠ '"') = rest.dropWhile (· ≠ '"') := by
  apply List.dropWhile_append_of_pos
  intro c hc
  rw [decide_eq_true_eq]
  rintro rfl
  exact h hc

theorem takeWhile_quote (h : '"' ∉ code) (rest : Text) :
    (code ++ '"' :: rest).takeWhile (· ≠ '"') = code := by
  have htake := List.takeWhile_append_dropWhile (p := (· ≠ '"')) (l := code ++ '"' :: rest)
  rw [dropWhile_quote h, List.dropWhile_cons_of_neg (by simp)] at htake
  exact List.append_cancel_right htake

theorem readScript?_of_isCode (h : IsCode code) : readScript? code = some ([], code) := by
  have hdrop : code.dropWhile (· ≠ '"') = [] := by
    have := dropWhile_quote h.not_quote []
    rwa [List.append_nil] at this
  rw [readScript?]
  split
  · rfl
  · rename_i heq
    rw [hdrop] at heq
    simp at heq

theorem readScript?_append (h : IsCode code) (text rest : Text) :
    readScript? (code ++ (scriptLiteral text ++ rest)) =
      (readScript? rest).map fun (pieces, last) => ((code, text) :: pieces, last) := by
  have hdrop : (code ++ '"' :: (escaped text ++ '"' :: rest)).dropWhile (· ≠ '"') =
      '"' :: (escaped text ++ '"' :: rest) := by
    rw [dropWhile_quote h.not_quote, List.dropWhile_cons_of_neg (by simp)]
  rw [scriptLiteral_append, readScript?]
  split
  · rename_i heq
    rw [hdrop] at heq
    simp at heq
  · rename_i c behind heq
    rw [hdrop, List.cons.injEq] at heq
    obtain ⟨-, rfl⟩ := heq
    split
    · rename_i hnone
      simp [read?_escaped] at hnone
    · rename_i literal after hsome
      rw [read?_escaped, Option.some.injEq, Prod.mk.injEq] at hsome
      obtain ⟨rfl, rfl⟩ := hsome
      rw [Literal.text?_literalOf, takeWhile_quote h.not_quote]
      cases readScript? rest <;> rfl

/-- A written script is read back as its pieces. -/
theorem readScript?_writeScript (hpieces : ∀ piece ∈ pieces, IsCode piece.1) (hcode : IsCode code) :
    readScript? (writeScript pieces code) = some (pieces, code) := by
  induction pieces with
  | nil => exact readScript?_of_isCode hcode
  | cons piece pieces ih =>
    rw [List.forall_mem_cons] at hpieces
    rw [writeScript_cons, readScript?_append hpieces.1, ih hpieces.2, Option.map_some]

/-- No tag is closed in a written script. -/
theorem not_isInfix_closer_writeScript (hpieces : ∀ piece ∈ pieces, IsCode piece.1)
    (hcode : IsCode code) : ¬ closer <:+: writeScript pieces code := by
  induction pieces with
  | nil =>
    have hend : ¬ closer <:+: code ++ [] := not_isInfix_closer_append hcode.not_angle (by decide)
    rwa [List.append_nil] at hend
  | cons piece pieces ih =>
    rw [List.forall_mem_cons] at hpieces
    rw [writeScript_cons]
    exact not_isInfix_closer_append hpieces.1.not_angle
      (not_isInfix_closer_scriptLiteral piece.2 (ih hpieces.2))

end Scripts

/-! ## Injected elements -/

/-- What a script puts into the document: an element with its attributes, and the text of a style
sheet unless the element is a link. -/
structure Injected where
  element : Text
  attributes : Attributes
  css : Option Text
  deriving DecidableEq, Repr

/-- What is put into the document for a style. -/
def Renderer.injected (renderer : Renderer) (input : Input) : Injected :=
  if input.isExternal then
    ⟨"link".toList, linkAttributes (renderer.attributes input), none⟩
  else ⟨"style".toList, renderer.attributes input, some input.css⟩

namespace Injected

def setterPieces (pair : Text × Text) : Pieces :=
  [(");".toList ++ "elm.setAttribute(".toList, pair.1), (", ".toList, pair.2)]

def fillingPieces (css : Text) : Pieces := [(");".toList ++ "var styles = ".toList, css)]

/-- The code between the text of the style sheet, or else the last attribute, and the literal
behind it. -/
def appending (css : Option Text) : Text :=
  (if css.isSome then
    ";if (elm.styleSheet) \x7b elm.styleSheet.cssText = styles; \x7d".toList
      ++ " else \x7b elm.appendChild(document.createTextNode(styles)); \x7d".toList
  else ");".toList) ++ "var s = document.getElementsByTagName(".toList

def appendingPieces (injected : Injected) : Pieces :=
  [(appending injected.css, injected.element),
    (");".toList ++ "if (s.length) \x7b s[0].parentNode.appendChild(elm); \x7d".toList
      ++ " else \x7b var head = document.getElementsByTagName(".toList, "head".toList)]

/-- The code of the script, piece by piece, with the names and values of the attributes and the
text of the style sheet in their places. -/
def pieces (injected : Injected) : Pieces :=
  ("(function() \x7b var elm = document.createElement(".toList, injected.element)
    :: injected.attributes.flatMap setterPieces
    ++ injected.css.toList.flatMap fillingPieces
    ++ injected.appendingPieces

/-- The code behind the last literal. -/
def closing : Text :=
  ");".toList ++ " head.length && head[0].appendChild(elm); \x7d \x7d());".toList

theorem isCode_of_mem_pieces {injected : Injected} :
    ∀ piece ∈ injected.pieces, IsCode piece.1 := by
  have happending : IsCode (appending injected.css) := by
    unfold appending
    split_ifs <;> exact ⟨by decide +kernel, by decide +kernel⟩
  intro piece hpiece
  simp only [pieces, setterPieces, fillingPieces, appendingPieces, List.mem_append, List.mem_cons,
    List.mem_flatMap, List.not_mem_nil, or_false, Option.mem_toList] at hpiece
  rcases hpiece with ((rfl | ⟨pair, -, rfl | rfl⟩) | ⟨css, -, rfl⟩) | rfl | rfl
  any_goals exact happending
  all_goals
    dsimp only
    exact ⟨by decide +kernel, by decide +kernel⟩

theorem isCode_closing : IsCode closing := ⟨by decide +kernel, by decide +kernel⟩

theorem writeScript_setterPieces (attributes : Attributes) (rest : Text) :
    writeScript (attributes.flatMap setterPieces) (");".toList ++ rest) =
      ");".toList ++ (attributes.flatMap setter ++ rest) := by
  induction attributes with
  | nil => rfl
  | cons pair attributes ih =>
    have hpair (rest : Text) : writeScript (setterPieces pair) (");".toList ++ rest) =
        ");".toList ++ (setter pair ++ rest) := by
      unfold setter
      simp only [writeScript, setterPieces, List.foldr_cons, List.foldr_nil, List.append_assoc]
    rw [List.flatMap_cons, writeScript_append, ih, hpair, List.flatMap_cons, List.append_assoc]

theorem writeScript_fillingPieces (css : Option Text) (rest : Text) :
    writeScript (css.toList.flatMap fillingPieces) (appending css ++ rest) =
      ");".toList ++ ((css.map filling).getD []
        ++ ("var s = document.getElementsByTagName(".toList ++ rest)) := by
  cases css with
  | none =>
    unfold appending
    exact List.append_assoc _ _ _
  | some css =>
    unfold appending
    show writeScript (fillingPieces css) _ = ");".toList ++ (filling css ++ _)
    unfold filling
    simp only [writeScript, fillingPieces, List.foldr_cons, List.foldr_nil, List.append_assoc,
      Option.isSome_some, if_true]

/-- The pieces are what the script is written from. -/
theorem injection_eq_writeScript {injected : Injected}
    (helement : scriptLiteral injected.element = '"' :: injected.element ++ ['"']) :
    injection injected.element injected.attributes ((injected.css.map filling).getD []) =
      writeScript injected.pieces closing := by
  have helm : "(function() \x7b var elm = document.createElement(\"".toList =
      "(function() \x7b var elm = document.createElement(".toList ++ ['"'] := by decide +kernel
  have hs : "var s = document.getElementsByTagName(\"".toList =
      "var s = document.getElementsByTagName(".toList ++ ['"'] := by decide +kernel
  have hhead : " else \x7b var head = document.getElementsByTagName(\"head\");".toList =
      " else \x7b var head = document.getElementsByTagName(".toList ++ scriptLiteral "head".toList
        ++ ");".toList := by decide +kernel
  have hclose : "\");".toList = '"' :: ");".toList := by decide +kernel
  have hwritten : writeScript injected.pieces closing =
      "(function() \x7b var elm = document.createElement(".toList ++
        (scriptLiteral injected.element ++ (");".toList ++ (injected.attributes.flatMap setter ++
          ((injected.css.map filling).getD [] ++
            ("var s = document.getElementsByTagName(".toList ++ (scriptLiteral injected.element ++
              (");".toList ++ ("if (s.length) \x7b s[0].parentNode.appendChild(elm); \x7d".toList ++
                (" else \x7b var head = document.getElementsByTagName(".toList ++
                  (scriptLiteral "head".toList ++ closing)))))))))) := by
    simp only [pieces, appendingPieces, writeScript_append, writeScript_cons, writeScript_nil,
      List.append_assoc, List.cons_append]
    rw [writeScript_fillingPieces, writeScript_setterPieces]
  rw [hwritten, helement]
  unfold injection closing
  rw [helm, hs, hclose, hhead]
  simp only [List.append_assoc, List.cons_append, List.nil_append]

theorem isSolid_writeScript_pieces (injected : Injected) :
    IsSolid (writeScript injected.pieces closing) := by
  have hopening : IsSolid "(function() \x7b var elm = document.createElement(".toList :=
    .of_ends (c := '(') (d := '(') (by decide +kernel) (by decide +kernel) rfl rfl
  have hclosing : IsSolid closing :=
    .of_ends (c := ')') (d := ';') (by decide +kernel) (by decide +kernel) rfl rfl
  exact isSolid_writeScript hopening hclosing _

end Injected

/-! ## Rendered styles -/

theorem render_of_isSolid {body : Text} (h : IsSolid body) (id : Text) :
    Script.render ⟨[], body, id⟩ = "<script>".toList ++ body ++ "</script>".toList := by
  have hempty : body.isEmpty = false := by simpa using h.ne_nil
  unfold Script.render
  simp only [h.trim_eq, hempty, Bool.false_and, Bool.false_eq_true, if_false]
  rfl

/-- A style that is rendered as a script leaves nothing behind if it has no text and no source.
Else no tag is closed in the script before its end, and the script is read back as its code with
the names and values of the attributes and the text of the style sheet in their places. No literal
closes a tag, whatever its text is, and every one is read as its text. -/
theorem render_script_sound (renderer : Renderer) (input : Input)
    (h : renderer.output = .script ∨ input.isExternal = true) :
    (∀ text, ¬ closer <:+: scriptLiteral text ∧
      Value.read? (scriptLiteral text) = some (.string text)) ∧
    ((input.isExternal = false ∧ input.css = [] ∧ renderer.render input = []) ∨
      ∃ body, renderer.render input = "<script>".toList ++ body ++ "</script>".toList ∧
        ¬ closer <:+: body ∧
        readScript? body = some ((renderer.injected input).pieces, Injected.closing)) := by
  have hrender : renderer.render input = renderer.renderScript input := by
    simp [Renderer.render, h]
  have hliteral (text : Text) : ¬ closer <:+: scriptLiteral text := by
    have hrest : ¬ closer <:+: scriptLiteral text ++ [] :=
      not_isInfix_closer_scriptLiteral text (by decide)
    rwa [List.append_nil] at hrest
  have hinjected (injected : Injected)
      (helement : scriptLiteral injected.element = '"' :: injected.element ++ ['"']) :
      ∃ body, Script.render ⟨[], injection injected.element injected.attributes
          ((injected.css.map filling).getD []), input.id⟩ =
        "<script>".toList ++ body ++ "</script>".toList ∧ ¬ closer <:+: body ∧
        readScript? body = some (injected.pieces, Injected.closing) := by
    rw [Injected.injection_eq_writeScript helement]
    exact ⟨_, render_of_isSolid injected.isSolid_writeScript_pieces _,
      not_isInfix_closer_writeScript Injected.isCode_of_mem_pieces Injected.isCode_closing,
      readScript?_writeScript Injected.isCode_of_mem_pieces Injected.isCode_closing⟩
  have hlink : scriptLiteral "link".toList = '"' :: "link".toList ++ ['"'] := by decide +kernel
  have hstyle : scriptLiteral "style".toList = '"' :: "style".toList ++ ['"'] := by decide +kernel
  refine ⟨fun text ↦ ⟨hliteral text, read?_scriptLiteral text⟩, ?_⟩
  rw [hrender]
  unfold Renderer.renderScript Renderer.injected
  by_cases hexternal : input.isExternal = true
  · rw [if_pos hexternal, if_pos hexternal]
    exact .inr (hinjected ⟨"link".toList, _, none⟩ hlink)
  · rw [if_neg hexternal, if_neg hexternal]
    by_cases hcss : input.css = []
    · exact .inl ⟨by simpa using hexternal, hcss, by simp [hcss]⟩
    · rw [if_neg (by simpa using hcss)]
      exact .inr (hinjected ⟨"style".toList, _, some input.css⟩ hstyle)

/-- A style that closes tags wherever it can, and cannot be read. -/
def closingInput : Input where
  attributes := [("media".toList, "</script>".toList), ("data-\\".toList, "<</\"\n".toList)]
  content := ".a\x7bb:\"</script>\\\"<</\x01".toList
  id := "rain-1".toList
  isScoped := true

theorem render_closingInput :
    let renderer : Renderer := ⟨.script, []⟩
    renderer.output = .script ∧ closingInput.css ≠ [] ∧
      renderer.injected closingInput =
        ⟨"style".toList, closingInput.attributes ++
          [("type".toList, "text/css".toList), ("data-rain-class".toList, "rain-1".toList)],
          some closingInput.content⟩ ∧
      ∃ body, renderer.render closingInput = "<script>".toList ++ body ++ "</script>".toList ∧
        ¬ closer <:+: body ∧
        readScript? body = some ((renderer.injected closingInput).pieces, Injected.closing) := by
  intro renderer
  have hcss : closingInput.css ≠ [] := by decide +kernel
  have hscript : renderer.output = .script := rfl
  obtain ⟨-, ⟨-, hempty, -⟩ | hbody⟩ := render_script_sound renderer closingInput (.inl hscript)
  · exact absurd hempty hcss
  · exact ⟨hscript, hcss, by decide +kernel, hbody⟩

end ComponentMarkup.Style
