import ComponentMarkup.Proofs.Json.Tokens

/-!
# Written documents read back

A text spells a document if its tokens carry the machine that builds documents over a whole value,
wherever the value stands. Strings, truth values, null and numbers spell what they are written for,
and arrays and objects of texts that spell documents spell the array or object of these, whatever
white space stands between their parts. A text that spells a document is read as that document.
-/

namespace ComponentMarkup.Json

/-! ## Documents -/

theorem foldlM_step_cons {state next : Document.State} {token : Token}
    (h : state.step token = some next) (more : List Token) :
    (token :: more).foldlM Document.State.step state = more.foldlM Document.State.step next := by
  rw [List.foldlM_cons, h]
  rfl

/-- Tokens that carry the machine over a whole value. -/
structure Builds (tokens : List Token) (document : Document) : Prop where
  head : tokens.head? ≠ some .closeBracket
  ne_nil : tokens ≠ []
  run : ∀ frames more, (tokens ++ more).foldlM Document.State.step (.value frames) =
    more.foldlM Document.State.step (.after document frames)

/-- The text of a whole value. -/
def Spells (text : Text) (document : Document) : Prop :=
  ∃ tokens, Builds tokens document ∧ ∀ rest, IsBreak rest →
    tokens? (text ++ rest) = (tokens? rest).map (tokens ++ ·)

/-- A text that spells a document is read as it, whatever white space stands around it. -/
theorem Spells.read?_spaced {before text after : Text} {document : Document}
    (hbefore : IsSpacing before) (h : Spells text document) (hafter : IsSpacing after) :
    Document.read? (before ++ text ++ after) = some document := by
  obtain ⟨tokens, hbuilds, htokens⟩ := h
  have hbreak : IsBreak (after ++ []) := isBreak_append hafter isBreak_nil
  have hall : tokens? (before ++ text ++ (after ++ [])) = some tokens := by
    rw [List.append_assoc, tokens?_spacing hbefore, htokens _ hbreak, tokens?_spacing hafter,
      tokens?_nil, Option.map_some, List.append_nil]
  have hrun := hbuilds.run [] []
  rw [List.append_nil] at hall hrun
  rw [Document.read?, hall, Option.bind_some, Document.ofTokens?, hrun]
  rfl

theorem Spells.read? {text : Text} {document : Document} (h : Spells text document) :
    Document.read? text = some document := by
  simpa using h.read?_spaced isSpacing_nil isSpacing_nil

theorem spells_of_token {text : Text} {token : Token} {document : Document}
    (hstep : ∀ frames, Document.State.valueStep frames token = some (.after document frames))
    (hclose : token ≠ .closeBracket)
    (h : ∀ rest, IsBreak rest → tokens? (text ++ rest) = (tokens? rest).map (token :: ·)) :
    Spells text document := by
  refine ⟨[token], ⟨by simpa using hclose, List.cons_ne_nil _ _, fun frames more ↦ ?_⟩, h⟩
  have hvalue : Document.State.step (.value frames) token = some (.after document frames) :=
    hstep frames
  exact foldlM_step_cons hvalue more

theorem Literal.Writes.spells {literal : Literal} {text : Text} (h : literal.Writes text) :
    Spells (Literal.quoted text) (.string literal) :=
  spells_of_token (fun _ ↦ rfl) (by simp) fun rest _ ↦ h.tokens?_append rest

theorem spells_quote (text : Text) : Spells (quote text) (.string (literalOf text)) :=
  (Literal.writes_literalOf text).spells

theorem spells_null : Spells "null".toList .null := by
  have hstep (frames : List Document.Frame) :
      Document.State.valueStep frames .null = some (.after .null frames) := rfl
  apply spells_of_token hstep (by simp)
  intro rest _
  exact tokens?_cons rfl rfl

theorem spells_renderBool (value : Bool) : Spells (Record.renderBool value) (.bool value) := by
  have hstep (frames : List Document.Frame) :
      Document.State.valueStep frames (.bool value) = some (.after (.bool value) frames) := rfl
  apply spells_of_token hstep (by simp)
  intro rest _
  cases value <;> exact tokens?_cons rfl rfl

theorem Number.Writes.spells {number : Number} {text : Text} (h : number.Writes text) :
    Spells text (.number number) :=
  spells_of_token (fun _ ↦ rfl) (by simp) fun _ hrest ↦ h.tokens?_append hrest

/-- An integer spells its number. -/
theorem Number.IsWhole.spells {digits : Text} (h : Number.IsWhole digits) (negative : Bool) :
    Spells (Number.integerText negative digits) (.number ⟨negative, digits, none, none⟩) := by
  have hwrites : Number.Writes ⟨negative, digits, none, none⟩
      (Number.integerText negative digits ++ [] ++ []) := .mk h .absent .absent
  rw [List.append_nil, List.append_nil] at hwrites
  exact hwrites.spells

theorem spells_renderNat (n : Nat) : Spells (Record.renderNat n) (.number (Number.ofNat n)) :=
  (Number.isWhole_toDigits n).spells false

/-- A natural number or nothing, as it is read back. -/
def documentOfOptional : Option Nat → Document
  | none => .null
  | some n => .number (Number.ofNat n)

theorem spells_renderOptional (n : Option Nat) :
    Spells (Record.renderOptional Record.renderNat n) (documentOfOptional n) := by
  cases n with
  | none => exact spells_null
  | some n => exact spells_renderNat n

/-! ## Arrays -/

/-- Tokens that carry the machine from the first item of an array to behind its closing bracket. -/
structure BuildsItems (tokens : List Token) (items : List Document) : Prop where
  head : ∃ token rest, tokens = token :: rest ∧ token ≠ .closeBracket
  run : ∀ done frames more,
    (tokens ++ more).foldlM Document.State.step (.value (.array done :: frames)) =
      more.foldlM Document.State.step (.after (.array (done.reverse ++ items)) frames)

/-- The text of the items of an array, at least one, with commas between them. -/
def SpellsItems (text : Text) (items : List Document) : Prop :=
  ∃ tokens, BuildsItems tokens items ∧ ∀ rest,
    tokens? (text ++ ']' :: rest) = (tokens? rest).map (tokens ++ ·)

theorem Builds.exists_cons {tokens : List Token} {document : Document} (h : Builds tokens document)
    (more : List Token) :
    ∃ token rest, tokens ++ more = token :: rest ∧ token ≠ .closeBracket := by
  obtain ⟨token, rest, rfl⟩ := List.exists_cons_of_ne_nil h.ne_nil
  exact ⟨token, rest ++ more, rfl, fun heq ↦ h.head (by rw [heq]; rfl)⟩

section Items

variable {before after text rest : Text} {document : Document} {documents : List Document}

theorem Spells.last_item (hbefore : IsSpacing before) (h : Spells text document)
    (hafter : IsSpacing after) : SpellsItems (before ++ text ++ after) [document] := by
  obtain ⟨tokens, hbuilds, htokens⟩ := h
  refine ⟨tokens ++ [.closeBracket], ⟨hbuilds.exists_cons _, fun done frames more ↦ ?_⟩,
    fun rest ↦ ?_⟩
  · have hclose : Document.State.step (.after document (.array done :: frames)) .closeBracket =
        some (.after (.array (document :: done).reverse) frames) := rfl
    rw [List.append_assoc, hbuilds.run, List.singleton_append, foldlM_step_cons hclose,
      List.reverse_cons]
  · have hbreak : IsBreak (after ++ ']' :: rest) :=
      isBreak_append hafter (isBreak_cons (by simp) rest)
    rw [List.append_assoc, List.append_assoc, tokens?_spacing hbefore, htokens _ hbreak,
      tokens?_spacing hafter, tokens?_punctuation rfl, Option.map_map]
    simp [Function.comp_def]

theorem Spells.cons_item (hbefore : IsSpacing before) (h : Spells text document)
    (hafter : IsSpacing after) (hrest : SpellsItems rest documents) :
    SpellsItems (before ++ text ++ after ++ ',' :: rest) (document :: documents) := by
  obtain ⟨tokens, hbuilds, htokens⟩ := h
  obtain ⟨others, hothers, hbehind⟩ := hrest
  refine ⟨tokens ++ .comma :: others, ⟨hbuilds.exists_cons _, fun done frames more ↦ ?_⟩,
    fun rest ↦ ?_⟩
  · have hcomma : Document.State.step (.after document (.array done :: frames)) .comma =
        some (.value (.array (document :: done) :: frames)) := rfl
    rw [List.append_assoc, hbuilds.run, List.cons_append, foldlM_step_cons hcomma, hothers.run]
    simp
  · have hbreak (more : Text) : IsBreak (after ++ ',' :: more) :=
      isBreak_append hafter (isBreak_cons (by simp) more)
    simp only [List.append_assoc, List.cons_append]
    rw [tokens?_spacing hbefore, htokens _ (hbreak _), tokens?_spacing hafter,
      tokens?_punctuation rfl, hbehind, Option.map_map, Option.map_map]
    simp [Function.comp_def]

theorem spells_array (h : SpellsItems text documents) :
    Spells ('[' :: text ++ [']']) (.array documents) := by
  obtain ⟨tokens, hbuilds, htokens⟩ := h
  refine ⟨.openBracket :: tokens, ⟨by simp, by simp, fun frames more ↦ ?_⟩, fun rest _ ↦ ?_⟩
  · have hopen : Document.State.step (.value frames) .openBracket = some (.firstItem frames) := rfl
    have hrun := hbuilds.run [] frames more
    obtain ⟨token, others, rfl, htoken⟩ := hbuilds.head
    have hfirst : Document.State.step (.firstItem frames) token =
        Document.State.step (.value (.array [] :: frames)) token := by
      cases token <;> first | rfl | exact absurd rfl htoken
    rw [List.cons_append, List.foldlM_cons] at hrun
    rw [List.cons_append, List.cons_append, foldlM_step_cons hopen, List.foldlM_cons, hfirst, hrun]
    rfl
  · rw [List.append_assoc, List.cons_append, List.singleton_append, tokens?_punctuation rfl,
      htokens, Option.map_map]
    rfl

theorem spells_emptyArray (h : IsSpacing text) : Spells ('[' :: text ++ [']']) (.array []) := by
  refine ⟨[.openBracket, .closeBracket], ⟨by simp, by simp, fun frames more ↦ rfl⟩, ?_⟩
  intro rest _
  rw [List.append_assoc, List.cons_append, List.singleton_append, tokens?_punctuation rfl,
    tokens?_spacing h, tokens?_punctuation rfl, Option.map_map]
  rfl

end Items

theorem spellsItems_joinWith {item : Text} {items : List Text} {document : Document}
    {documents : List Document} (hitem : Spells item document)
    (hitems : List.Forall₂ Spells items documents) :
    SpellsItems (Text.joinWith [','] (item :: items)) (document :: documents) := by
  induction hitems generalizing item document with
  | nil => simpa [Text.joinWith] using hitem.last_item isSpacing_nil isSpacing_nil
  | cons hnext _ ih =>
    have hcons := hitem.cons_item isSpacing_nil isSpacing_nil (ih hnext)
    simpa [Text.joinWith, List.intercalate_cons_cons] using hcons

/-- An array of texts that spell documents spells the array of these. -/
theorem spells_renderArray {items : List Text} {documents : List Document}
    (h : List.Forall₂ Spells items documents) :
    Spells (Record.renderArray items) (.array documents) := by
  cases h with
  | nil => exact spells_emptyArray isSpacing_nil
  | cons hitem hitems => exact spells_array (spellsItems_joinWith hitem hitems)

/-! ## Objects -/

/-- Tokens that carry the machine from the first key of an object to behind its closing brace. -/
structure BuildsMembers (tokens : List Token) (members : List (Literal × Document)) : Prop where
  head : ∃ key rest, tokens = .string key :: rest
  run : ∀ done frames more,
    (tokens ++ more).foldlM Document.State.step (.key done frames) =
      more.foldlM Document.State.step (.after (.object (done.reverse ++ members)) frames)

/-- The text of the members of an object, at least one, with commas between them. -/
def SpellsMembers (text : Text) (members : List (Literal × Document)) : Prop :=
  ∃ tokens, BuildsMembers tokens members ∧ ∀ rest,
    tokens? (text ++ '\x7d' :: rest) = (tokens? rest).map (tokens ++ ·)

/-- The text of a key. -/
def SpellsKey (text : Text) (key : Literal) : Prop :=
  ∀ rest, tokens? (text ++ rest) = (tokens? rest).map (.string key :: ·)

section Members

variable {before middle gap after name text rest : Text} {key : Literal} {document : Document}
  {members : List (Literal × Document)}

/-- The tokens of a member carry the machine from its key to behind its value. -/
theorem Builds.run_member {tokens : List Token} (h : Builds tokens document) (key : Literal)
    (done : List (Literal × Document)) (frames : List Document.Frame) (more : List Token) :
    (.string key :: .colon :: (tokens ++ more)).foldlM Document.State.step (.key done frames) =
      more.foldlM Document.State.step (.after document (.object done key :: frames)) := by
  have hkey : Document.State.step (.key done frames) (.string key) =
      some (.colon done key frames) := rfl
  have hcolon : Document.State.step (.colon done key frames) .colon =
      some (.value (.object done key :: frames)) := rfl
  rw [foldlM_step_cons hkey, foldlM_step_cons hcolon, h.run]

/-- A member is cut into its key, the colon and the tokens of its value. -/
theorem tokens?_member {tokens : List Token} (hbefore : IsSpacing before)
    (hname : SpellsKey name key) (hmiddle : IsSpacing middle) (hgap : IsSpacing gap)
    (htokens : ∀ rest, IsBreak rest →
      tokens? (text ++ rest) = (tokens? rest).map (tokens ++ ·))
    (hrest : IsBreak rest) :
    tokens? (before ++ name ++ middle ++ ':' :: (gap ++ text ++ rest)) =
      (tokens? rest).map (.string key :: .colon :: tokens ++ ·) := by
  rw [List.append_assoc, List.append_assoc, tokens?_spacing hbefore, hname, tokens?_spacing hmiddle,
    tokens?_punctuation rfl, List.append_assoc, tokens?_spacing hgap, htokens rest hrest,
    Option.map_map, Option.map_map]
  rfl

theorem Spells.last_member (hbefore : IsSpacing before) (hname : SpellsKey name key)
    (hmiddle : IsSpacing middle) (hgap : IsSpacing gap) (h : Spells text document)
    (hafter : IsSpacing after) :
    SpellsMembers (before ++ name ++ middle ++ ':' :: (gap ++ text ++ after))
      [(key, document)] := by
  obtain ⟨tokens, hbuilds, htokens⟩ := h
  refine ⟨.string key :: .colon :: (tokens ++ [.closeBrace]),
    ⟨⟨key, _, rfl⟩, fun done frames more ↦ ?_⟩, fun rest ↦ ?_⟩
  · have hclose : Document.State.step (.after document (.object done key :: frames)) .closeBrace =
        some (.after (.object ((key, document) :: done).reverse) frames) := rfl
    have hmember := hbuilds.run_member key done frames (.closeBrace :: more)
    rw [foldlM_step_cons hclose, List.reverse_cons] at hmember
    rw [← hmember]
    simp
  · have hbreak : IsBreak (after ++ '\x7d' :: rest) :=
      isBreak_append hafter (isBreak_cons (by simp) rest)
    have hmember := tokens?_member hbefore hname hmiddle hgap htokens hbreak
    rw [tokens?_spacing hafter, tokens?_punctuation rfl, Option.map_map] at hmember
    simpa [Function.comp_def] using hmember

theorem Spells.cons_member (hbefore : IsSpacing before) (hname : SpellsKey name key)
    (hmiddle : IsSpacing middle) (hgap : IsSpacing gap) (h : Spells text document)
    (hafter : IsSpacing after) (hrest : SpellsMembers rest members) :
    SpellsMembers (before ++ name ++ middle ++ ':' :: (gap ++ text ++ after) ++ ',' :: rest)
      ((key, document) :: members) := by
  obtain ⟨tokens, hbuilds, htokens⟩ := h
  obtain ⟨others, hothers, hbehind⟩ := hrest
  refine ⟨.string key :: .colon :: (tokens ++ .comma :: others),
    ⟨⟨key, _, rfl⟩, fun done frames more ↦ ?_⟩, fun more ↦ ?_⟩
  · have hcomma : Document.State.step (.after document (.object done key :: frames)) .comma =
        some (.key ((key, document) :: done) frames) := rfl
    have hmember := hbuilds.run_member key done frames (.comma :: (others ++ more))
    rw [foldlM_step_cons hcomma, hothers.run] at hmember
    simpa using hmember
  · have hbreak : IsBreak (after ++ ',' :: (rest ++ '\x7d' :: more)) :=
      isBreak_append hafter (isBreak_cons (by simp) _)
    have hmember := tokens?_member hbefore hname hmiddle hgap htokens hbreak
    rw [tokens?_spacing hafter, tokens?_punctuation rfl, hbehind, Option.map_map, Option.map_map]
      at hmember
    simpa [Function.comp_def] using hmember

theorem spells_object (h : SpellsMembers text members) :
    Spells ('\x7b' :: text ++ ['\x7d']) (.object members) := by
  obtain ⟨tokens, hbuilds, htokens⟩ := h
  refine ⟨.openBrace :: tokens, ⟨by simp, by simp, fun frames more ↦ ?_⟩, fun rest _ ↦ ?_⟩
  · have hopen : Document.State.step (.value frames) .openBrace = some (.firstKey frames) := rfl
    have hrun := hbuilds.run [] frames more
    obtain ⟨key, others, rfl⟩ := hbuilds.head
    have hfirst : Document.State.step (.firstKey frames) (.string key) =
        Document.State.step (.key [] frames) (.string key) := rfl
    rw [List.cons_append, List.foldlM_cons] at hrun
    rw [List.cons_append, List.cons_append, foldlM_step_cons hopen, List.foldlM_cons, hfirst, hrun]
    rfl
  · rw [List.append_assoc, List.cons_append, List.singleton_append, tokens?_punctuation rfl,
      htokens, Option.map_map]
    rfl

theorem spells_emptyObject (h : IsSpacing text) :
    Spells ('\x7b' :: text ++ ['\x7d']) (.object []) := by
  refine ⟨[.openBrace, .closeBrace], ⟨by simp, by simp, fun frames more ↦ rfl⟩, ?_⟩
  intro rest _
  rw [List.append_assoc, List.cons_append, List.singleton_append, tokens?_punctuation rfl,
    tokens?_spacing h, tokens?_punctuation rfl, Option.map_map]
  rfl

end Members

/-! ## Records -/

/-- A field is written for a member: its name denotes the key and its value spells the document. -/
def SpellsMember (field : Text × Text) (member : Literal × Document) : Prop :=
  member.1 = literalOf field.1 ∧ Spells field.2 member.2

theorem SpellsMember.spellsKey {field : Text × Text} {member : Literal × Document}
    (h : SpellsMember field member) : SpellsKey (quote field.1) member.1 :=
  fun rest ↦ h.1 ▸ tokens?_quote field.1 rest

theorem spellsMembers_renderFields {field : Text × Text} {fields : List (Text × Text)}
    {member : Literal × Document} {members : List (Literal × Document)}
    (hfield : SpellsMember field member) (hfields : List.Forall₂ SpellsMember fields members) :
    SpellsMembers (Record.renderFields (field :: fields)) (member :: members) := by
  induction hfields generalizing field member with
  | nil =>
    have hlast := hfield.2.last_member isSpacing_nil hfield.spellsKey isSpacing_nil isSpacing_nil
      isSpacing_nil
    simpa [Record.renderFields] using hlast
  | cons hnext _ ih =>
    have hcons := hfield.2.cons_member isSpacing_nil hfield.spellsKey isSpacing_nil isSpacing_nil
      isSpacing_nil (ih hnext)
    simpa [Record.renderFields] using hcons

/-- A record of fields that are written for members spells the object of these. -/
theorem spells_render {fields : List (Text × Text)} {members : List (Literal × Document)}
    (h : List.Forall₂ SpellsMember fields members) :
    Spells (Record.render fields) (.object members) := by
  cases h with
  | nil => exact spells_emptyObject isSpacing_nil
  | cons hfield hfields => exact spells_object (spellsMembers_renderFields hfield hfields)

end ComponentMarkup.Json
