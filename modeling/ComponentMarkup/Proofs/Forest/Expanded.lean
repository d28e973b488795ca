import ComponentMarkup.Proofs.Component.Substitution
import ComponentMarkup.Proofs.Forest.Written
import Mathlib.Data.List.Infix

/-!
# Forests expanded by replacing

Each element of a forest is to be replaced by its inner forest between two texts. Replacing the
texts of the elements one after the other, the longest first, does so. After each replacement the
page is the forest with some elements expanded, namely those of the texts so far: an element that is
not yet expanded stands there as it was written, since all elements in it are shorter, and the text
of an element begins nowhere else.
-/

namespace ComponentMarkup

open Text Tag Component

/-- What stands before and behind the inner text of an element. -/
structure Frame where
  before : Text
  after : Text
  deriving DecidableEq, Repr

/-- No tags and no bindings, and no white space at the ends. -/
structure Frame.IsProper (frame : Frame) : Prop where
  begins : ∃ c ∈ frame.before.head?, isBlank c = false
  ends : ∃ c ∈ frame.after.getLast?, isBlank c = false
  text : ∀ c ∈ frame.before ++ frame.after, isTextChar c = true ∧ c ≠ '\x7d'

instance (frame : Frame) : Decidable frame.IsProper :=
  have {p : Char → Prop} [DecidablePred p] (text : Text) : Decidable (∀ c ∈ text, p c) :=
    List.decidableBAll p text
  have {p : Char → Prop} [DecidablePred p] (c? : Option Char) : Decidable (∃ c ∈ c?, p c) :=
    Option.decidableExistsMem c?
  decidable_of_iff ((∃ c ∈ frame.before.head?, isBlank c = false) ∧
      (∃ c ∈ frame.after.getLast?, isBlank c = false) ∧
      ∀ c ∈ frame.before ++ frame.after, isTextChar c = true ∧ c ≠ '\x7d')
    ⟨fun ⟨hbegins, hends, htext⟩ ↦ ⟨hbegins, hends, htext⟩, fun h ↦ ⟨h.begins, h.ends, h.text⟩⟩

def Frame.fill (frame : Frame) (inner : Text) : Text := frame.before ++ inner ++ frame.after

namespace Forest

/-- Every element becomes the frame of its name around what it holds. -/
def expand (frames : Text → Frame) : Forest → Text
  | done => []
  | text content rest => content ++ rest.expand frames
  | element name _ inner rest => (frames name).fill (inner.expand frames) ++ rest.expand frames

/-- The elements with these texts are expanded, and the others stand as they were written. -/
def expandSome (frames : Text → Frame) (texts : List Text) : Forest → Text
  | done => []
  | text content rest => content ++ rest.expandSome frames texts
  | element name attributes inner rest =>
    (if (occurrence name attributes inner).text ∈ texts then
      (frames name).fill (inner.expandSome frames texts)
    else '<' :: name ++ attributesText attributes ++ '>' :: inner.expandSome frames texts ++
      closingTag name) ++ rest.expandSome frames texts

section Some

variable {frames : Text → Frame} {texts : List Text}

theorem expandSome_eq_write {forest : Forest} (h : ∀ o ∈ forest.elements, o.text ∉ texts) :
    forest.expandSome frames texts = forest.write := by
  induction forest with
  | done => rfl
  | text content rest ih => rw [expandSome, write, ih h]
  | element name attributes inner rest ihInner ihRest =>
    simp only [elements, List.cons_append, List.mem_cons, List.mem_append, forall_eq_or_imp] at h
    obtain ⟨hself, hothers⟩ := h
    rw [expandSome, if_neg hself, write, ihInner fun o ho ↦ hothers o (Or.inl ho),
      ihRest fun o ho ↦ hothers o (Or.inr ho)]

theorem expandSome_eq_expand {forest : Forest} (h : ∀ o ∈ forest.elements, o.text ∈ texts) :
    forest.expandSome frames texts = forest.expand frames := by
  induction forest with
  | done => rfl
  | text content rest ih => rw [expandSome, expand, ih h]
  | element name attributes inner rest ihInner ihRest =>
    simp only [elements, List.cons_append, List.mem_cons, List.mem_append, forall_eq_or_imp] at h
    obtain ⟨hself, hothers⟩ := h
    rw [expandSome, if_pos hself, expand, ihInner fun o ho ↦ hothers o (Or.inl ho),
      ihRest fun o ho ↦ hothers o (Or.inr ho)]

end Some

/-! ## Texts of elements -/

section Texts

variable {name other : Text} {attributes as : List WrittenAttribute} {inner inside : Forest}

theorem byteLength_write_lt (name : Text) (attributes : List WrittenAttribute) (inner : Forest) :
    inner.write.byteLength < (occurrence name attributes inner).text.byteLength := by
  have hsize : 0 < Char.utf8Size '<' := by decide
  simp only [occurrence, Occurrence.text, Occurrence.front, Ending.text, List.cons_append]
  simp only [byteLength, byteLength_append]
  omega

theorem byteLength_text_le {forest : Forest} {o : Occurrence} (h : o ∈ forest.elements) :
    o.text.byteLength ≤ forest.write.byteLength := by
  induction forest with
  | done => exact absurd h List.not_mem_nil
  | text content rest ih =>
    rw [write, byteLength_append]
    exact (ih h).trans (Nat.le_add_left _ _)
  | element name attributes inner rest ihInner ihRest =>
    rw [elements, List.cons_append, List.mem_cons, List.mem_append] at h
    rw [write_element, byteLength_append]
    rcases h with rfl | h | h
    · exact Nat.le_add_right _ _
    · have hinner := (ihInner h).trans (byteLength_write_lt name attributes inner).le
      exact hinner.trans (Nat.le_add_right _ _)
    · exact (ihRest h).trans (Nat.le_add_left _ _)

/-- What stands in an element is shorter than the element. -/
theorem byteLength_text_lt {o : Occurrence} (h : o ∈ inner.elements) (name : Text)
    (attributes : List WrittenAttribute) :
    o.text.byteLength < (occurrence name attributes inner).text.byteLength :=
  (byteLength_text_le h).trans_lt (byteLength_write_lt name attributes inner)

/-- The text of an element begins where the element stands, and nowhere else: an element that it
begins at has the same parts. -/
theorem occurrence_eq_of_begins (h : (element name attributes inner done).IsProper)
    (hother : (element other as inside done).IsProper) {s : Text}
    (hbegins : (occurrence name attributes inner).text <+: (occurrence other as inside).text ++ s) :
    occurrence name attributes inner = occurrence other as inside := by
  obtain ⟨⟨hname, hattributes, hnames⟩, hinner, _⟩ := h
  obtain ⟨⟨hname', hattributes', hnames'⟩, hinside, _⟩ := hother
  obtain ⟨t, ht⟩ := hbegins
  have hfirst := first?_occurrence hname hname hattributes hinner hnames rfl t
  rw [ht] at hfirst
  by_cases hlower : lower other = lower name
  · have hsecond := first?_occurrence hname' hname hattributes' hinside hnames' hlower s
    rw [hfirst, Option.some.injEq, Prod.mk.injEq, Prod.mk.injEq] at hsecond
    exact hsecond.2.1
  · let behind := inside.write ++ closingTag other ++ s
    obtain ⟨c, rest, hcons, hc⟩ := exists_endsName_attributesText hattributes' behind
    have hopening : opening? .ignored name (other ++ (attributesText as ++ '>' :: behind)) = none := by
      rw [hcons]
      exact opening?_of_lower_ne hname hname' hc hlower
    have hsource : (occurrence other as inside).text ++ s =
        '<' :: (other ++ (attributesText as ++ '>' :: behind)) := by
      simp [occurrence, Occurrence.text, Occurrence.front, Ending.text, behind]
    exact absurd rfl (first?_before_ne_nil hopening hsource hfirst)

/-- A closing tag is no element. -/
theorem not_begins_closingTag (hname : IsName name) (attributes : List WrittenAttribute)
    (inner : Forest) (other s : Text) :
    ¬(occurrence name attributes inner).text <+: closingTag other ++ s := by
  intro hbegins
  have hslash : name ++ (attributesText attributes ++ '>' :: (inner.write ++ closingTag name)) <+:
      '/' :: (other ++ ['>'] ++ s) := by
    have htext : (occurrence name attributes inner).text = '<' :: (name ++
        (attributesText attributes ++ '>' :: (inner.write ++ closingTag name))) := by
      simp [occurrence, Occurrence.text, Occurrence.front, Ending.text]
    rw [htext] at hbegins
    exact (List.cons_prefix_cons.1 hbegins).2
  obtain ⟨c, rest, rfl⟩ := List.exists_cons_of_ne_nil hname.1
  have hc := (List.cons_prefix_cons.1 hslash).1
  have hend := hname.not_endsName List.mem_cons_self
  rw [hc] at hend
  exact absurd hend (by decide)

theorem exists_of_mem_elements {forest : Forest} (h : forest.IsProper) {o : Occurrence}
    (ho : o ∈ forest.elements) :
    ∃ name attributes inner, (element name attributes inner done).IsProper ∧
      o = occurrence name attributes inner := by
  induction forest with
  | done => exact absurd ho List.not_mem_nil
  | text content rest ih => exact ih h.2 ho
  | element name attributes inner rest ihInner ihRest =>
    rw [elements, List.cons_append, List.mem_cons, List.mem_append] at ho
    rcases ho with rfl | ho | ho
    · exact ⟨name, attributes, inner, ⟨h.1, h.2.1, trivial⟩, rfl⟩
    · exact ihInner h.2.1 ho
    · exact ihRest h.2.2 ho

end Texts

/-! ## Replacing the text of an element -/

/-- What an element is replaced by. -/
def filled (frames : Text → Frame) (o : Occurrence) : Text := (frames o.name).fill o.innerText

section Replace

variable {frames : Text → Frame} {texts : List Text} {forest : Forest}

theorem Frame.not_mem_before {frame : Frame} (h : frame.IsProper) : '<' ∉ frame.before :=
  not_mem_of_isTextChar fun c hc ↦ (h.text c (List.mem_append_left _ hc)).1

theorem Frame.not_mem_after {frame : Frame} (h : frame.IsProper) : '<' ∉ frame.after :=
  not_mem_of_isTextChar fun c hc ↦ (h.text c (List.mem_append_right _ hc)).1

/-- The elements that are expanded reach down to the text `o`: all longer ones are, and no shorter
one is. -/
structure ReachesTo (forest : Forest) (texts : List Text) (o : Occurrence) : Prop where
  longer : ∀ p ∈ forest.elements, o.text.byteLength < p.text.byteLength → p.text ∈ texts
  notShorter : ∀ text ∈ texts, o.text.byteLength ≤ text.byteLength

/-- In an element that is not expanded nothing is. -/
theorem ReachesTo.not_mem {name : Text} {attributes : List WrittenAttribute} {inner rest : Forest}
    {o : Occurrence} (h : ReachesTo (element name attributes inner rest) texts o)
    (hself : (occurrence name attributes inner).text ∉ texts) :
    ∀ p ∈ inner.elements, p.text ∉ o.text :: texts := by
  intro p hp hmem
  have hlt := byteLength_text_lt hp name attributes
  have hle : (occurrence name attributes inner).text.byteLength ≤ o.text.byteLength := by
    by_contra hlonger
    exact hself (h.longer _ List.mem_cons_self (by omega))
  rcases List.mem_cons.1 hmem with heq | hmem
  · rw [heq] at hlt
    omega
  · have := h.notShorter _ hmem
    omega

section Copies

variable {name m : Text} {attributes as : List WrittenAttribute} {inner inside : Forest}

/-- Texts without `<` are copied. -/
theorem replaceFrom_text_append (name : Text) (attributes : List WrittenAttribute)
    (inner : Forest) (new : Text) {t : Text} (h : '<' ∉ t) (s : Text) :
    replaceFrom (occurrence name attributes inner).text new 0 (t ++ s) =
      t ++ replaceFrom (occurrence name attributes inner).text new 0 s :=
  replaceFrom_append h s

/-- Closing tags are copied. -/
theorem replaceFrom_closingTag (hname : IsName name) (hm : IsName m) (new s : Text) :
    replaceFrom (occurrence name attributes inner).text new 0 (closingTag m ++ s) =
      closingTag m ++ replaceFrom (occurrence name attributes inner).text new 0 s := by
  have hfirst := replaceFrom_cons new (not_begins_closingTag hname attributes inner m s)
  calc
    _ = '<' :: replaceFrom (occurrence name attributes inner).text new 0
        (('/' :: m ++ ['>']) ++ s) := hfirst
    _ = _ := by
      rw [replaceFrom_text_append _ _ _ _ (not_mem_closingTag hm)]
      rfl

/-- The opening tag of an element with another text is copied. -/
theorem replaceFrom_openingTag (h : (element name attributes inner done).IsProper)
    (hm : (element m as inside done).IsProper)
    (hne : (occurrence m as inside).text ≠ (occurrence name attributes inner).text)
    (new s : Text) :
    replaceFrom (occurrence name attributes inner).text new 0 ((occurrence m as inside).text ++ s) =
      '<' :: m ++ attributesText as ++ '>' ::
        replaceFrom (occurrence name attributes inner).text new 0
          (inside.write ++ (closingTag m ++ s)) := by
  have hbegins : ¬(occurrence name attributes inner).text <+:
      (occurrence m as inside).text ++ s := by
    intro hbegins
    exact hne (by rw [occurrence_eq_of_begins h hm hbegins])
  have helement : (occurrence m as inside).text ++ s =
      '<' :: ((m ++ attributesText as ++ ['>']) ++ (inside.write ++ (closingTag m ++ s))) := by
    simp [occurrence, Occurrence.text, Occurrence.front, Ending.text]
  rw [helement] at hbegins ⊢
  rw [replaceFrom_cons new hbegins, replaceFrom_text_append _ _ _ _ (not_mem_openingTag hm.1.1 hm.1.2.1)]
  simp

end Copies

/-- Replacing the text of an element expands all elements with this text. -/
theorem replaceFrom_expandSome {name : Text} {attributes : List WrittenAttribute} {inner : Forest}
    (hproper : (element name attributes inner done).IsProper) (hforest : forest.IsProper)
    (hframes : ∀ name ∈ forest.names, (frames name).IsProper)
    (hreaches : ReachesTo forest texts (occurrence name attributes inner)) (s : Text) :
    let o := occurrence name attributes inner
    replaceFrom o.text (filled frames o) 0 (forest.expandSome frames texts ++ s) =
      forest.expandSome frames (o.text :: texts) ++ replaceFrom o.text (filled frames o) 0 s := by
  intro o
  have hcopy {t : Text} (h : '<' ∉ t) (s : Text) :=
    replaceFrom_text_append name attributes inner (filled frames o) h s
  induction forest generalizing s with
  | done => rfl
  | text content rest ih =>
    have hstep := ih hforest.2 hframes ⟨hreaches.longer, hreaches.notShorter⟩ s
    rw [expandSome, expandSome, List.append_assoc, hcopy (not_mem_of_isTextChar hforest.1), hstep,
      List.append_assoc]
  | element m as inside rest ihInside ihRest =>
    obtain ⟨hself, hinside, hrest⟩ := hforest
    simp only [names, List.cons_append, List.mem_cons, List.mem_append, forall_eq_or_imp] at hframes
    obtain ⟨hframe, hothers⟩ := hframes
    have hstepRest := ihRest hrest (fun n hn ↦ hothers n (Or.inr hn)) ⟨fun p hp ↦
      hreaches.longer p (List.mem_cons_of_mem _ (List.mem_append_right _ hp)), hreaches.notShorter⟩
    have hstepInside := ihInside hinside (fun n hn ↦ hothers n (Or.inl hn)) ⟨fun p hp ↦
      hreaches.longer p (List.mem_cons_of_mem _ (List.mem_append_left _ hp)), hreaches.notShorter⟩
    by_cases hmem : (occurrence m as inside).text ∈ texts
    · -- An element that is expanded: its frame is copied, and what it holds goes on.
      rw [expandSome, if_pos hmem, expandSome, if_pos (List.mem_cons_of_mem _ hmem)]
      simp only [Frame.fill, List.append_assoc]
      rw [hcopy (Frame.not_mem_before hframe), hstepInside, hcopy (Frame.not_mem_after hframe),
        hstepRest]
    · have hnone := hreaches.not_mem hmem
      have hwritten : inside.expandSome frames texts = inside.write :=
        expandSome_eq_write fun p hp hp' ↦ hnone p hp (List.mem_cons_of_mem _ hp')
      have hstays : inside.expandSome frames (o.text :: texts) = inside.write :=
        expandSome_eq_write hnone
      have hm : (element m as inside done).IsProper := ⟨hself, hinside, trivial⟩
      have helement (t : Text) : '<' :: m ++ attributesText as ++ '>' :: inside.write ++
          closingTag m ++ t = (occurrence m as inside).text ++ t := by
        simp [occurrence, Occurrence.text, Occurrence.front, Ending.text]
      rw [expandSome, if_neg hmem, hwritten, List.append_assoc, helement, expandSome, hstays]
      by_cases heq : (occurrence m as inside).text = o.text
      · -- The element that is replaced.
        have hsame : o = occurrence m as inside :=
          occurrence_eq_of_begins hproper hm (s := []) (by rw [heq, List.append_nil])
        have hfilled : filled frames o = (frames m).fill inside.write := by
          rw [hsame]
          rfl
        have hne : o.text ≠ [] := List.cons_ne_nil _ _
        rw [if_pos (by rw [heq]; exact List.mem_cons_self), heq, replaceFrom_self_append hne,
          hstepRest, hfilled, List.append_assoc]
      · -- Another element, whose tags are copied.
        have hmem' : (occurrence m as inside).text ∉ o.text :: texts := by
          rw [List.mem_cons, not_or]
          exact ⟨heq, hmem⟩
        have hinner := hstepInside (closingTag m ++ (rest.expandSome frames texts ++ s))
        rw [hwritten, hstays, replaceFrom_closingTag hproper.1.1 hself.1, hstepRest] at hinner
        rw [if_neg hmem', replaceFrom_openingTag hproper hm heq, hinner]
        simp

/-- Replacing the texts of the elements that are left, the longest first, expands everything. -/
theorem foldl_replaceAll_expandSome (hforest : forest.IsProper)
    (hframes : ∀ name ∈ forest.names, (frames name).IsProper) {replacements : List (Text × Text)}
    (hreplacements : ∀ pair ∈ replacements, ∃ o ∈ forest.elements, pair = (o.text, filled frames o))
    (hnodup : (replacements.map Prod.fst).Nodup) (hsorted : replacements.Pairwise NotShorter)
    (hnew : ∀ pair ∈ replacements, pair.1 ∉ texts ∧ ∀ text ∈ texts,
      pair.1.byteLength ≤ text.byteLength)
    (hall : ∀ o ∈ forest.elements, o.text ∈ texts ∨ o.text ∈ replacements.map Prod.fst) :
    replacements.foldl (fun page pair ↦ replaceAll pair.1 pair.2 page)
      (forest.expandSome frames texts) = forest.expand frames := by
  induction replacements generalizing texts with
  | nil => exact expandSome_eq_expand fun o ho ↦ (hall o ho).resolve_right List.not_mem_nil
  | cons pair rest ih =>
    obtain ⟨o, ho, rfl⟩ := hreplacements pair List.mem_cons_self
    obtain ⟨name, attributes, inner, hproper, rfl⟩ := exists_of_mem_elements hforest ho
    let o := occurrence name attributes inner
    rw [List.map_cons, List.nodup_cons] at hnodup
    rw [List.pairwise_cons] at hsorted
    have hreaches : ReachesTo forest texts o := by
      refine ⟨fun p hp hlonger ↦ (hall p hp).resolve_right ?_, (hnew _ List.mem_cons_self).2⟩
      intro hmem
      obtain ⟨other, hother, htext⟩ := List.mem_map.1 hmem
      rw [← htext] at hlonger
      rcases List.mem_cons.1 hother with rfl | hother
      · exact absurd hlonger (lt_irrefl _)
      · exact absurd hlonger (not_lt.2 (hsorted.1 other hother))
    have hstep : replaceAll o.text (filled frames o) (forest.expandSome frames texts) =
        forest.expandSome frames (o.text :: texts) := by
      have hreplace : replaceFrom o.text (filled frames o) 0 (forest.expandSome frames texts ++ []) =
          forest.expandSome frames (o.text :: texts) ++ replaceFrom o.text (filled frames o) 0 [] :=
        replaceFrom_expandSome hproper hforest hframes hreaches []
      rw [List.append_nil, replaceFrom_nil, List.append_nil] at hreplace
      exact hreplace
    rw [List.foldl_cons, hstep]
    apply ih (fun p hp ↦ hreplacements p (List.mem_cons_of_mem _ hp)) hnodup.2 hsorted.2
    · intro p hp
      obtain ⟨hnot, hshorter⟩ := hnew p (List.mem_cons_of_mem _ hp)
      rw [List.mem_cons, not_or]
      have hne : p.1 ≠ o.text := fun heq ↦ hnodup.1 (List.mem_map.2 ⟨p, hp, heq⟩)
      refine ⟨⟨hne, hnot⟩, ?_⟩
      intro text htext
      rcases List.mem_cons.1 htext with rfl | htext
      · exact hsorted.1 p hp
      · exact hshorter text htext
    · intro p hp
      rcases hall p hp with hmem | hmem
      · exact Or.inl (List.mem_cons_of_mem _ hmem)
      · rcases List.mem_cons.1 hmem with heq | hmem
        · exact Or.inl (heq ▸ List.mem_cons_self)
        · exact Or.inr hmem

/-- Substituting the outputs of its elements expands a forest. -/
theorem substitute_write (hforest : forest.IsProper)
    (hframes : ∀ name ∈ forest.names, (frames name).IsProper) {replacements : List (Text × Text)}
    (hreplacements : ∀ pair ∈ replacements, ∃ o ∈ forest.elements, pair = (o.text, filled frames o))
    (hnodup : (replacements.map Prod.fst).Nodup)
    (hall : ∀ o ∈ forest.elements, o.text ∈ replacements.map Prod.fst) :
    substitute forest.write replacements = forest.expand frames := by
  have hperm := perm_longestFirst replacements
  have hkeys := hperm.map Prod.fst
  have hstart : forest.expandSome frames [] = forest.write :=
    expandSome_eq_write fun _ _ ↦ List.not_mem_nil
  rw [substitute, ← hstart]
  apply foldl_replaceAll_expandSome hforest hframes
  · exact fun pair hpair ↦ hreplacements pair (hperm.mem_iff.1 hpair)
  · exact hkeys.nodup_iff.2 hnodup
  · exact pairwise_longestFirst replacements
  · exact fun pair _ ↦ ⟨List.not_mem_nil, fun _ htext ↦ absurd htext List.not_mem_nil⟩
  · exact fun o ho ↦ Or.inr (hkeys.mem_iff.2 (hall o ho))

end Replace

end Forest

end ComponentMarkup
