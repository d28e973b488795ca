import ComponentMarkup.Proofs.Json.Spell
import Mathlib.Data.List.Nodup

/-!
# Fields read from an object

An object may hold the fields of a record in any order, and other members between them. Each field
is read as the document under its name, whichever member that is, and the other members do not
matter.
-/

namespace ComponentMarkup.Json

/-- The documents of the members whose keys denote a name, in order. -/
def documentsUnder (name : Text) (members : List (Literal × Document)) : List Document :=
  (members.filter fun member ↦ Literal.text? member.1 = some name).map Prod.snd

/-- The keys of an object denote texts. -/
def HasKeys (members : List (Literal × Document)) : Prop :=
  ∀ member ∈ members, (Literal.text? member.1).isSome = true

instance (members : List (Literal × Document)) : Decidable (HasKeys members) :=
  inferInstanceAs (Decidable (∀ member ∈ members, _))

section Members

variable {key name : Text} {names : List Text} {document : Document} {literal : Literal}
  {members : List (Literal × Document)}

theorem documentsUnder_cons_self (h : Literal.text? literal = some name) :
    documentsUnder name ((literal, document) :: members) =
      document :: documentsUnder name members := by
  simp [documentsUnder, h]

theorem documentsUnder_cons_of_ne (h : Literal.text? literal = some key) (hne : key ≠ name) :
    documentsUnder name ((literal, document) :: members) = documentsUnder name members := by
  simp [documentsUnder, h, hne]

/-! ## Places of fields -/

/-- Filling the place of a key changes what stands at that key and nothing else. -/
theorem fill?_map {places : Text → Option Document} (hnodup : names.Nodup)
    (hfree : key ∈ names → places key = none) :
    Record.fill? key document names (names.map places) =
      some (names.map (Function.update places key (some document))) := by
  induction names with
  | nil => rfl
  | cons name names ih =>
    obtain ⟨hname, hnodup⟩ := List.nodup_cons.1 hnodup
    rw [List.map_cons, Record.fill?, List.map_cons]
    by_cases heq : name = key
    · subst heq
      have hplace : places name = none := hfree List.mem_cons_self
      have hothers : names.map (Function.update places name (some document)) =
          names.map places := by
        apply List.map_congr_left
        intro other hother
        exact Function.update_of_ne (ne_of_mem_of_not_mem hother hname) _ _
      rw [if_pos rfl, hplace, hothers, Function.update_self]
      rfl
    · rw [if_neg heq, ih hnodup fun hkey ↦ hfree (List.mem_cons_of_mem _ hkey),
        Function.update_of_ne heq]
      rfl

/-- A place is filled by the document under its name, if it was free or there is none. -/
theorem fillAll?_map {places : Text → Option Document} (hnodup : names.Nodup)
    (hkeys : HasKeys members)
    (hfree : ∀ name ∈ names, (places name).toList.length +
      (documentsUnder name members).length ≤ 1) :
    Record.fillAll? names members (names.map places) =
      some (names.map fun name ↦ (places name).or (documentsUnder name members).head?) := by
  induction members generalizing places with
  | nil => simp [Record.fillAll?, documentsUnder]
  | cons member members ih =>
    obtain ⟨literal, document⟩ := member
    obtain ⟨hkey, hkeys⟩ := List.forall_mem_cons.1 hkeys
    obtain ⟨key, hkey⟩ := Option.isSome_iff_exists.1 hkey
    have hplace : key ∈ names → places key = none := by
      intro hmem
      have hcount := hfree key hmem
      rw [documentsUnder_cons_self hkey, List.length_cons] at hcount
      cases hplace : places key with
      | none => rfl
      | some _ =>
        rw [hplace, Option.toList_some, List.length_singleton] at hcount
        omega
    have hrest : ∀ name ∈ names, (Function.update places key (some document) name).toList.length +
        (documentsUnder name members).length ≤ 1 := by
      intro name hname
      have hcount := hfree name hname
      by_cases heq : key = name
      · subst heq
        rw [documentsUnder_cons_self hkey, hplace hname, List.length_cons] at hcount
        rw [Function.update_self, Option.toList_some, List.length_singleton]
        rw [Option.toList_none, List.length_nil] at hcount
        omega
      · rwa [Function.update_of_ne (Ne.symm heq), ← documentsUnder_cons_of_ne hkey heq]
    rw [Record.fillAll?, hkey, Option.bind_some, fill?_map hnodup hplace, Option.bind_some,
      ih hkeys hrest, Option.some.injEq]
    apply List.map_congr_left
    intro name hname
    by_cases heq : key = name
    · subst heq
      rw [Function.update_self, hplace hname, documentsUnder_cons_self hkey]
      rfl
    · rw [Function.update_of_ne (Ne.symm heq), documentsUnder_cons_of_ne hkey heq]

/-- The fields of an object are the documents under their names, if no name is written twice. -/
theorem fields?_object (hnodup : names.Nodup) (hkeys : HasKeys members)
    (honce : ∀ name ∈ names, (documentsUnder name members).length ≤ 1) :
    Record.fields? names (.object members) =
      some (names.map fun name ↦ (documentsUnder name members).head?) := by
  have hfilled : Record.fillAll? names members (names.map fun _ ↦ none) =
      some (names.map fun name ↦
        (none : Option Document).or (documentsUnder name members).head?) :=
    fillAll?_map hnodup hkeys (by simpa using honce)
  simpa [Record.fields?] using hfilled

end Members

/-! ## Documents of a kind -/

/-- A string that denotes a text, whatever escapes it is written with. -/
inductive IsString (text : Text) : Document → Prop
  | mk {literal : Literal} (h : Literal.text? literal = some text) : IsString text (.string literal)

section Kinds

variable {bound : Nat} {document : Document}

theorem IsString.text? {text : Text} (h : IsString text document) :
    Document.text? document = some text := by
  obtain ⟨h⟩ := h
  exact h

theorem bool?_of_eq {value : Bool} (h : document = .bool value) :
    Document.bool? document = some value := by
  rw [h]
  rfl

theorem nat?_of_eq {n : Nat} (hn : n < bound) (h : document = .number (Number.ofNat n)) :
    Document.nat? bound document = some n := by
  rw [h, Document.nat?, Number.nat?_ofNat, Option.bind_some, if_pos hn]

theorem optional?_of_eq {n : Option Nat} (hn : ∀ m ∈ n, m < bound)
    (h : document = documentOfOptional n) :
    Document.optional? (Document.nat? bound) document = some n := by
  subst h
  cases n with
  | none => rfl
  | some n =>
    have hread : Document.optional? (Document.nat? bound) (.number (Number.ofNat n)) =
        (Document.nat? bound (.number (Number.ofNat n))).map some := rfl
    rw [documentOfOptional, hread, nat?_of_eq (hn n rfl) rfl, Option.map_some]

end Kinds

/-! ## Fields that are chosen -/

/-- A field is written once, as a document of a kind, if it is chosen, and is left out if not. -/
inductive WritesField (members : List (Literal × Document)) (name : Text)
    (kind : Document → Prop) : Bool → Prop
  | chosen {document : Document} (h : kind document)
      (hunder : documentsUnder name members = [document]) : WritesField members name kind true
  | leftOut (hunder : documentsUnder name members = []) : WritesField members name kind false

/-- An object of fields. It has to be written if one of its fields is chosen. -/
inductive WritesNested (members : List (Literal × Document)) (name : Text)
    (kind : List (Literal × Document) → Prop) : Bool → Prop
  | object {inner : List (Literal × Document)} {chosen : Bool} (hkeys : HasKeys inner)
      (h : kind inner) (hunder : documentsUnder name members = [.object inner]) :
      WritesNested members name kind chosen
  | leftOut (hunder : documentsUnder name members = []) : WritesNested members name kind false

section Fields

variable {α : Type} {members : List (Literal × Document)} {name : Text} {chosen : Bool}
  {missing value : α} {read? : Document → Option α}

theorem WritesField.length_le_one {kind : Document → Prop}
    (h : WritesField members name kind chosen) : (documentsUnder name members).length ≤ 1 := by
  cases h with
  | chosen _ hunder => rw [hunder, List.length_singleton]
  | leftOut hunder => simp [hunder]

theorem WritesNested.length_le_one {kind : List (Literal × Document) → Prop}
    (h : WritesNested members name kind chosen) : (documentsUnder name members).length ≤ 1 := by
  cases h with
  | object _ _ hunder => rw [hunder, List.length_singleton]
  | leftOut hunder => simp [hunder]

/-- A field is read as its value if it is chosen, and has the value of a missing one if not. -/
theorem WritesField.fieldOr_head? {kind : Document → Prop}
    (h : WritesField members name kind chosen)
    (hread : ∀ document, kind document → read? document = some value) :
    Record.fieldOr missing read? (documentsUnder name members).head? =
      some (if chosen then value else missing) := by
  cases h with
  | chosen hkind hunder =>
    rw [hunder, List.head?_singleton, Record.fieldOr, hread _ hkind]
    rfl
  | leftOut hunder =>
    rw [hunder]
    rfl

/-- An object of fields is read by its fields. Where it is left out nothing of it is chosen. -/
theorem WritesNested.fieldOr_head? {kind : List (Literal × Document) → Prop}
    (h : WritesNested members name kind chosen)
    (hread : ∀ inner, HasKeys inner → kind inner → read? (.object inner) = some value)
    (hmissing : chosen = false → missing = value) :
    Record.fieldOr missing read? (documentsUnder name members).head? = some value := by
  cases h with
  | object hkeys hkind hunder =>
    rw [hunder, List.head?_singleton, Record.fieldOr, hread _ hkeys hkind]
  | leftOut hunder =>
    rw [hunder, hmissing rfl]
    rfl

end Fields

/-! ## Written records -/

/-- The members of a record that is written with all its fields. -/
def membersOf (fields : List (Text × Document)) : List (Literal × Document) :=
  fields.map fun field ↦ (literalOf field.1, field.2)

theorem hasKeys_membersOf (fields : List (Text × Document)) : HasKeys (membersOf fields) := by
  intro member hmember
  obtain ⟨field, _, rfl⟩ := List.mem_map.1 hmember
  rw [Literal.text?_literalOf]
  rfl

theorem documentsUnder_membersOf_of_not_mem {fields : List (Text × Document)} {name : Text}
    (h : name ∉ fields.map Prod.fst) : documentsUnder name (membersOf fields) = [] := by
  induction fields with
  | nil => rfl
  | cons field fields ih =>
    rw [List.map_cons, List.mem_cons, not_or] at h
    have hkey : Literal.text? (literalOf field.1) = some field.1 := Literal.text?_literalOf field.1
    rw [membersOf, List.map_cons, documentsUnder_cons_of_ne hkey (Ne.symm h.1), ← membersOf, ih h.2]

/-- In a written record the document of a field stands under its name. -/
theorem documentsUnder_membersOf {fields : List (Text × Document)} {name : Text}
    {document : Document} (hnodup : (fields.map Prod.fst).Nodup)
    (hfield : (name, document) ∈ fields) :
    documentsUnder name (membersOf fields) = [document] := by
  induction fields with
  | nil => exact absurd hfield List.not_mem_nil
  | cons first fields ih =>
    obtain ⟨hfirst, hnodup⟩ := List.nodup_cons.1 hnodup
    have hkey : Literal.text? (literalOf first.1) = some first.1 := Literal.text?_literalOf first.1
    rcases List.mem_cons.1 hfield with rfl | hfield
    · rw [membersOf, List.map_cons, documentsUnder_cons_self hkey, ← membersOf,
        documentsUnder_membersOf_of_not_mem hfirst]
    · have hne : first.1 ≠ name := fun heq ↦ hfirst (heq ▸ List.mem_map_of_mem hfield)
      rw [membersOf, List.map_cons, documentsUnder_cons_of_ne hkey hne, ← membersOf,
        ih hnodup hfield]

theorem documentsUnder_singleton (name : Text) (document : Document) :
    documentsUnder name (membersOf [(name, document)]) = [document] :=
  documentsUnder_membersOf (List.nodup_singleton name) (List.mem_singleton_self (name, document))

end ComponentMarkup.Json
