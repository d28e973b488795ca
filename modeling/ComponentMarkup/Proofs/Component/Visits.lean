import ComponentMarkup.Component.Render
import ComponentMarkup.Proofs.Dict.Settled
import Mathlib.Data.List.Nodup

/-!
# The tags of a page that are rendered

The children of a page are rendered component by component and tag by tag, and a tag whose text has
come before is passed over. Here the tags that remain are listed beforehand, so that rendering the
children is one pass over a list of visits: the outputs stand in the order of the visits under their
texts, and the dependencies follow each other in that order.
-/

namespace ComponentMarkup.Component

/-- A tag of a page with the file of its component. -/
structure Visit where
  file : Path
  tag : Tag.Occurrence
  deriving DecidableEq, Repr

/-- Every tag of a page, component by component. -/
def allVisits (components : ComponentMap) (html : Text) : List Visit :=
  components.flatMap fun component ↦
    (Tag.occurrences .ignored component.1 html).map (Visit.mk component.2)

/-- Leaves out the tags whose texts are among `seen` or have come before. -/
def firstVisits (seen : List Text) : List Visit → List Visit
  | [] => []
  | visit :: rest =>
    if visit.tag.text ∈ seen then firstVisits seen rest
    else visit :: firstVisits (visit.tag.text :: seen) rest

/-- The tags of a page that are rendered. -/
def visits (components : ComponentMap) (html : Text) : List Visit :=
  firstVisits [] (allVisits components html)

/-- No two tags have the same letters. -/
def HasDistinctTags (components : ComponentMap) : Prop :=
  (components.map fun component ↦ Text.lower component.1).Nodup

instance (components : ComponentMap) : Decidable (HasDistinctTags components) :=
  inferInstanceAs (Decidable (List.Nodup _))

theorem mem_allVisits {components : ComponentMap} {html : Text} {visit : Visit} :
    visit ∈ allVisits components html ↔
      ∃ component ∈ components, visit.tag ∈ Tag.occurrences .ignored component.1 html ∧
        visit.file = component.2 := by
  rw [allVisits, List.mem_flatMap]
  constructor
  · rintro ⟨component, hcomponent, hvisit⟩
    obtain ⟨tag, htag, rfl⟩ := List.mem_map.1 hvisit
    exact ⟨component, hcomponent, htag, rfl⟩
  · rintro ⟨component, hcomponent, htag, hfile⟩
    refine ⟨component, hcomponent, List.mem_map.2 ⟨visit.tag, htag, ?_⟩⟩
    rw [← hfile]

theorem firstVisits_congr {s t : List Text} (h : ∀ text, text ∈ s ↔ text ∈ t)
    (all : List Visit) : firstVisits s all = firstVisits t all := by
  induction all generalizing s t with
  | nil => rfl
  | cons visit rest ih =>
    have hrest : firstVisits (visit.tag.text :: s) rest = firstVisits (visit.tag.text :: t) rest := by
      apply ih
      intro text
      simp [h text]
    simp only [firstVisits, h visit.tag.text, hrest, ih h]

theorem mem_firstVisits {seen : List Text} {all : List Visit} {visit : Visit}
    (h : visit ∈ firstVisits seen all) : visit ∈ all ∧ visit.tag.text ∉ seen := by
  induction all generalizing seen with
  | nil => simp [firstVisits] at h
  | cons first rest ih =>
    simp only [firstVisits] at h
    split at h
    · exact ⟨List.mem_cons_of_mem _ (ih h).1, (ih h).2⟩
    · rename_i hfirst
      rcases List.mem_cons.1 h with rfl | h
      · exact ⟨List.mem_cons_self, hfirst⟩
      · have := ih h
        exact ⟨List.mem_cons_of_mem _ this.1, fun hs ↦ this.2 (List.mem_cons_of_mem _ hs)⟩

/-- Every text is visited once. -/
theorem nodup_firstVisits (seen : List Text) (all : List Visit) :
    ((firstVisits seen all).map fun visit ↦ visit.tag.text).Nodup := by
  induction all generalizing seen with
  | nil => simp [firstVisits]
  | cons first rest ih =>
    simp only [firstVisits]
    split
    · exact ih seen
    · rw [List.map_cons, List.nodup_cons]
      refine ⟨?_, ih _⟩
      intro h
      obtain ⟨visit, hvisit, htext⟩ := List.mem_map.1 h
      exact (mem_firstVisits hvisit).2 (htext ▸ List.mem_cons_self)

/-- No text of a page is left out. -/
theorem text_mem_firstVisits {seen : List Text} {all : List Visit} {visit : Visit}
    (h : visit ∈ all) (hs : visit.tag.text ∉ seen) :
    visit.tag.text ∈ (firstVisits seen all).map fun visit ↦ visit.tag.text := by
  induction all generalizing seen with
  | nil => simp at h
  | cons first rest ih =>
    by_cases hfirst : first.tag.text ∈ seen
    · rcases List.mem_cons.1 h with rfl | h
      · exact absurd hfirst hs
      · simpa only [firstVisits, if_pos hfirst] using ih h hs
    · rw [firstVisits, if_neg hfirst, List.map_cons, List.mem_cons]
      by_cases heq : visit.tag.text = first.tag.text
      · exact Or.inl heq
      · rcases List.mem_cons.1 h with rfl | h
        · exact absurd rfl heq
        · exact Or.inr (ih h (by simp [heq, hs]))

/-! ## The tags of one component -/

/-- The tags of one component, each text once. -/
def visitsOf (html : Text) (component : Text × Text) : List Visit :=
  firstVisits [] ((Tag.occurrences .ignored component.1 html).map (Visit.mk component.2))

/-- Tags of different components have different texts. -/
def HasTextsApart (components : ComponentMap) (html : Text) : Prop :=
  ∀ c ∈ components, ∀ d ∈ components, c ≠ d →
    ∀ s ∈ Tag.occurrences .ignored c.1 html, ∀ t ∈ Tag.occurrences .ignored d.1 html,
      s.text ≠ t.text

instance (components : ComponentMap) (html : Text) : Decidable (HasTextsApart components html) :=
  inferInstanceAs (Decidable (∀ c ∈ components, ∀ d ∈ components, _ → ∀ s ∈ _, ∀ t ∈ _, _))

/-- Texts that do not come up make no difference. -/
theorem firstVisits_append_of_not_mem {texts : List Text} {all : List Visit}
    (h : ∀ visit ∈ all, visit.tag.text ∉ texts) (seen : List Text) :
    firstVisits (seen ++ texts) all = firstVisits seen all := by
  induction all generalizing seen with
  | nil => rfl
  | cons visit rest ih =>
    obtain ⟨hvisit, hrest⟩ := List.forall_mem_cons.1 h
    have hseen : visit.tag.text ∈ seen ++ texts ↔ visit.tag.text ∈ seen := by
      simp [hvisit]
    rw [firstVisits, firstVisits, ih hrest, ← List.cons_append, ih hrest]
    simp only [hseen]

theorem firstVisits_append (seen : List Text) (all others : List Visit) :
    firstVisits seen (all ++ others) =
      firstVisits seen all ++ firstVisits (seen ++ all.map fun visit ↦ visit.tag.text) others := by
  induction all generalizing seen with
  | nil => simp [firstVisits]
  | cons visit rest ih =>
    by_cases hvisit : visit.tag.text ∈ seen
    · rw [List.cons_append, firstVisits, if_pos hvisit, ih, firstVisits, if_pos hvisit]
      congr 1
      apply firstVisits_congr
      intro text
      simp only [List.map_cons, List.mem_append, List.mem_cons]
      grind
    · rw [List.cons_append, firstVisits, if_neg hvisit, ih, firstVisits, if_neg hvisit,
        List.cons_append]
      congr 2
      apply firstVisits_congr
      intro text
      simp only [List.map_cons, List.mem_append, List.mem_cons]
      grind

/-- Where the texts are apart, the tags of a page are those of its components. -/
theorem visits_eq_flatMap {components : ComponentMap} {html : Text} (hnodup : components.Nodup)
    (h : HasTextsApart components html) :
    visits components html = components.flatMap (visitsOf html) := by
  induction components with
  | nil => rfl
  | cons component rest ih =>
    rw [List.nodup_cons] at hnodup
    have hrest : HasTextsApart rest html := fun c hc d hd ↦
      h c (List.mem_cons_of_mem _ hc) d (List.mem_cons_of_mem _ hd)
    have hothers : ∀ visit ∈ allVisits rest html, visit.tag.text ∉
        ((Tag.occurrences .ignored component.1 html).map (Visit.mk component.2)).map
          fun visit ↦ visit.tag.text := by
      intro visit hvisit hmem
      obtain ⟨other, hother, htag, _⟩ := mem_allVisits.1 hvisit
      rw [List.map_map, List.mem_map] at hmem
      obtain ⟨tag, hself, htext⟩ := hmem
      have hne : component ≠ other := by
        rintro rfl
        exact hnodup.1 hother
      exact h component List.mem_cons_self other (List.mem_cons_of_mem _ hother) hne tag hself
        visit.tag htag htext
    calc
      visits (component :: rest) html =
          visitsOf html component ++ firstVisits ([] ++ _) (allVisits rest html) :=
        firstVisits_append [] _ _
      _ = visitsOf html component ++ visits rest html := by
        rw [firstVisits_append_of_not_mem hothers]
        rfl
      _ = _ := by rw [ih hnodup.2 hrest, List.flatMap_cons]

theorem HasDistinctTags.nodup {components : ComponentMap} (h : HasDistinctTags components) :
    components.Nodup := List.Nodup.of_map _ h

section Rendering

variable (setting : Setting) (child? : Option Renderer) (page : Page)

/-- Renders the tags of a page one after the other. -/
def renderVisits : List Visit → State → List Rendered × State
  | [], state => ([], state)
  | visit :: rest, state =>
    let (first, state) := renderTag setting child? page visit.file state visit.tag
    let (others, state) := renderVisits rest state
    (first :: others, state)

/-- The outputs of visits under the texts of their tags. -/
def outputsOf (visits : List Visit) (results : List Rendered) : Dict Text :=
  List.zipWith (fun visit rendered ↦ (visit.tag.text, rendered.output)) visits results

theorem outputsOf_map (visits : List Visit) (result : Visit → Rendered) :
    outputsOf visits (visits.map result) =
      visits.map fun visit ↦ (visit.tag.text, (result visit).output) := by
  rw [outputsOf, List.zipWith_map_right, List.zipWith_self]

theorem foldl_addTag (all : List Visit) (found : Children × State) :
    all.foldl (fun found visit ↦ addTag setting child? page visit.file found visit.tag) found =
      let first := firstVisits (Dict.keys found.1.outputs) all
      let rendered := renderVisits setting child? page first found.2
      (⟨found.1.outputs ++ outputsOf first rendered.1,
        found.1.dependencies ++ rendered.1.flatMap Rendered.dependencies⟩, rendered.2) := by
  induction all generalizing found with
  | nil => simp [firstVisits, renderVisits, outputsOf]
  | cons visit rest ih =>
    obtain ⟨children, state⟩ := found
    rw [List.foldl_cons, ih]
    by_cases h : visit.tag.text ∈ Dict.keys children.outputs
    · simp [addTag, firstVisits, (Dict.contains_iff_mem_keys _ _).2 h, h]
    · have hc : Dict.contains children.outputs visit.tag.text = false := by
        rw [Bool.eq_false_iff, Ne, Dict.contains_iff_mem_keys]
        exact h
      have hkeys (output : Text) :
          firstVisits (Dict.keys (children.outputs ++ [(visit.tag.text, output)])) rest =
            firstVisits (visit.tag.text :: Dict.keys children.outputs) rest := by
        apply firstVisits_congr
        intro text
        simp [Dict.keys, or_comm]
      simp [addTag, firstVisits, hc, h, Dict.insert_of_not_mem_keys _ h, hkeys, renderVisits, outputsOf]

/-- Rendering the children of a page is one pass over its visits. -/
theorem renderChildren_eq (components : ComponentMap) (html : Text) (state : State) :
    renderChildren setting child? page components html state =
      let rendered := renderVisits setting child? page (visits components html) state
      (⟨outputsOf (visits components html) rendered.1,
        rendered.1.flatMap Rendered.dependencies⟩, rendered.2) := by
  have hfold : renderChildren setting child? page components html state =
      (allVisits components html).foldl
        (fun found visit ↦ addTag setting child? page visit.file found visit.tag)
        (⟨[], []⟩, state) := by
    simp [renderChildren, allVisits, List.foldl_flatMap, List.foldl_map]
  rw [hfold, foldl_addTag]
  rfl

end Rendering

end ComponentMarkup.Component
