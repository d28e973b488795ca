import ComponentMarkup.Proofs.Component.Reorder
import ComponentMarkup.Proofs.Site.Calls

/-!
# The order in which components are declared

The order in which pages declare their components makes no difference to the output of a call, as
long as the children of every page that declares them in another order can be put in in any order.
Three conditions hold for all that is asked for: digests tell the inputs apart, what is asked for
again comes out the same, and data do not change from call to call.
-/

namespace ComponentMarkup.Site

open Component

section Order

variable {a b : FileTree} {ha hb : Host} {root : Path} {options : Options} {target : Target}
  {data : Data}

/-- Two sites that declare their components in different orders give the same output. -/
theorem render_eq_of_reorder (htemplate : options.isEnabled .template = true)
    (hfirst : ha.IsSteady) (hsecond : hb.IsSteady) (hshape : a.SameShape b)
    (hsame : ∀ asking ∈ (new root options ha).asked a target data,
      ∀ path ∈ asking.request.path? ⟨a, options⟩, SameButOrder a b ha hb path)
    (hfree : ∀ asking ∈ (new root options ha).asked a target data,
      ∀ draft ∈ draft? ⟨a, options⟩ ha asking.request,
        draft.components ≠ hb.declared b draft.path →
          draft.IsOrderFree ⟨a, options⟩ ha asking.depth)
    (hagree : RepeatsAgree ⟨a, options⟩ ha ((new root options ha).asked a target data))
    (hdigest : DigestsTellApart (inputTexts ((new root options ha).asked a target data))) :
    ((new root options hb).render b target data).1 =
      ((new root options ha).render a target data).1 := by
  have hclosed {depth : Nat} {request child : Request}
      (h : ⟨depth + 1, request⟩ ∈ (new root options ha).asked a target data)
      (hchild : child ∈ childRequests ⟨a, options⟩ ha request) :
      ⟨depth, child⟩ ∈ (new root options ha).asked a target data :=
    (new root options ha).mem_asked_of_childRequests h hchild
  have houtput {asking : Asking} (h : asking ∈ (new root options ha).asked a target data) :
      (asking.outcome ⟨b, options⟩ hb).output = (asking.outcome ⟨a, options⟩ ha).output :=
    outcome_output_eq hshape hclosed hsame hfree htemplate h
  have hasked : (new root options hb).asked b target data ⊆
      (new root options ha).asked a target data := by
    intro asking h
    obtain ⟨request, hrequest, h⟩ := List.mem_flatMap.1 h
    have htop : request ∈ (new root options ha).requests target data := hrequest
    have hmem := mem_asked_of_requests (new root options ha) a htop
    exact List.mem_flatMap.2
      ⟨request, htop, asked_subset hshape hclosed hsame hfree hmem h⟩
  have hother : ((new root options hb).render b target data).1 =
      (new root options hb).outcome b target data := by
    apply render_new_eq_outcome hsecond
    · intro s hs t ht
      exact hdigest s (List.map_subset _ hasked hs) t (List.map_subset _ hasked ht)
    · intro x hx y hy hrepeats
      have hrepeats' : x.Repeats ⟨a, options⟩ y := by
        refine ⟨?_, hrepeats.2⟩
        rw [Request.path?, hshape.resolve?_eq, Request.path?, hshape.resolve?_eq]
        exact hrepeats.1
      rw [houtput (hasked hx), houtput (hasked hy)]
      exact hagree x (hasked hx) y (hasked hy) hrepeats'
  have hcomponent {request : Request}
      (h : request ∈ (new root options ha).requests target data) :
      (Component.outcome ⟨b, options⟩ hb options.maxDepth request).output =
        (Component.outcome ⟨a, options⟩ ha options.maxDepth request).output :=
    houtput (mem_asked_of_requests (new root options ha) a h)
  calc
    _ = (new root options hb).outcome b target data := hother
    _ = (new root options ha).outcome a target data := by
      cases target with
      | one reference => exact hcomponent (List.mem_singleton_self _)
      | many references =>
        rw [outcome, outcome]
        apply List.flatMap_congr
        intro reference hreference
        congr 1
        exact hcomponent (List.mem_map.2 ⟨reference, hreference, rfl⟩)
    _ = _ := (render_new_eq_outcome hfirst hdigest hagree).symm

end Order

/-! ## A list with a card in it, and two tags of one length -/

/-- A component that has a template only. -/
def writeTemplate (name template : String) (tree : FileTree) : FileTree :=
  tree.write ("/rain/".toList ++ name.toList)
    (.text ("<template>" ++ template ++ "</template>").toList) (some 1)

/-- The page declares these components in this order. -/
def writeDeclaration (components : String) (tree : FileTree) : FileTree :=
  tree.write "/rain/page.json".toList
    (.text ("\x7b\"components\":" ++ components ++ "\x7d").toList) (some 1)

/-- A list with a card in it, and a note whose tag is as long as that of the card. -/
def listFirst : FileTree :=
  writeDeclaration "[\"list.rain\",\"card.rain\",\"note.rain\"]"
    <| writeTemplate "page.rain" "<list><card></card></list><note></note>"
    <| writeTemplate "list.rain" "(\x7b\x7b\x7b children \x7d\x7d\x7d)"
    <| writeTemplate "card.rain" "C"
    <| writeTemplate "note.rain" "N" .empty

def noteFirst : FileTree :=
  writeDeclaration "[\"note.rain\",\"card.rain\",\"list.rain\"]" listFirst

/-- What the page can become while its children are put in. -/
def listAndNoteTexts : List Text :=
  ["<list><card></card></list>", "<list>C</list>", "(<card></card>)", "(C)"].flatMap fun list ↦
    ["<note></note>", "N"].map fun note ↦ (list ++ note).toList

theorem render_noteFirst_eq_listFirst :
    listFirst.SameShape noteFirst ∧
      HasDistinctTags (Host.default.declared listFirst "/rain/page.rain".toList) ∧
      Host.default.declared listFirst "/rain/page.rain".toList ≠
        Host.default.declared noteFirst "/rain/page.rain".toList ∧
      ((new "/rain".toList .default .default).render noteFirst (.one "page.rain".toList) []).1 =
        ((new "/rain".toList .default .default).render listFirst (.one "page.rain".toList) []).1 ∧
      ((new "/rain".toList .default .default).render listFirst (.one "page.rain".toList) []).1 =
        "(C)N".toList := by
  let askings := (new "/rain".toList .default .default).asked listFirst (.one "page.rain".toList) []
  have hsteady : Host.default.IsSteady := Host.isSteady_ofExtension _
  have hbare : Host.default.IsBare := Host.isBare_ofExtension _
  have hfile : listFirst.sight (FileTree.namesOf "/rain/page.json".toList) =
      some (.file (.text
        "\x7b\"components\":[\"list.rain\",\"card.rain\",\"note.rain\"]\x7d".toList)
          (some 1)) := by
    decide +kernel
  have hshape : listFirst.SameShape noteFirst := FileTree.sameShape_write hfile _ _
  have hfiles : ∀ asking ∈ askings, ∀ path ∈ asking.request.path? ⟨listFirst, .default⟩,
      (listFirst.read path).toOption.map (Segments.extract listFirst (Path.parent path)) =
          (noteFirst.read path).toOption.map (Segments.extract noteFirst (Path.parent path)) ∧
        ((Host.default.definition? noteFirst path).getD .empty).data.isNone = true ∧
        ((Host.default.definition? listFirst path).getD .empty).data.isNone = true ∧
        ((Host.default.definition? noteFirst path).getD .empty).props =
          ((Host.default.definition? listFirst path).getD .empty).props ∧
        (Host.default.declared listFirst path = Host.default.declared noteFirst path ∨
          HasDistinctTags (Host.default.declared listFirst path) ∧
            (Host.default.declared listFirst path).Perm
              (Host.default.declared noteFirst path)) := by
    decide +kernel
  have hsame : ∀ asking ∈ askings, ∀ path ∈ asking.request.path? ⟨listFirst, .default⟩,
      SameButOrder listFirst noteFirst .default .default path := by
    intro asking hasking path hpath
    obtain ⟨hsegments, hnoteData, hlistData, hprops, hdeclared⟩ := hfiles asking hasking path hpath
    rw [Option.isNone_iff_eq_none] at hnoteData hlistData
    exact sameButOrder_of_isBare hbare hbare hsegments (hnoteData.trans hlistData.symm) hprops
      hdeclared
  have hswaps : ∀ asking ∈ askings,
      ∀ draft ∈ draft? ⟨listFirst, .default⟩ .default asking.request,
        draft.components ≠ Host.default.declared noteFirst draft.path →
          HasTextsApart draft.components draft.html ∧
            SwapsAmong listAndNoteTexts
              (draft.replacements ⟨listFirst, .default⟩ .default asking.depth)
              draft.components draft.html := by
    decide +kernel
  have hfree : ∀ asking ∈ askings,
      ∀ draft ∈ draft? ⟨listFirst, .default⟩ .default asking.request,
        draft.components ≠ Host.default.declared noteFirst draft.path →
          draft.IsOrderFree ⟨listFirst, .default⟩ .default asking.depth := by
    intro asking hasking draft hdraft hne
    obtain ⟨hapart, hswap⟩ := hswaps asking hasking draft hdraft hne
    exact ⟨hapart, hswap.canSwap⟩
  have hagree : RepeatsAgree ⟨listFirst, .default⟩ .default askings := by
    decide +kernel
  have hdigest : DigestsTellApart (inputTexts askings) := by
    decide +kernel
  refine ⟨hshape, by decide +kernel, by decide +kernel, ?_, by decide +kernel⟩
  exact render_eq_of_reorder rfl hsteady hsteady hshape hsame hfree hagree hdigest

/-- Two tags of one length, and the output of the first is the text of the second: the one that is
declared first is put in first. -/
def twins (components : String) : FileTree :=
  writeDeclaration components
    <| writeTemplate "page.rain" "<a></a><b></b>"
    <| writeTemplate "a.rain" "<b></b>"
    <| writeTemplate "b.rain" "B" .empty

/-- One tag that is found for two names: it goes to the one that is declared first. -/
def sharedTag (components : String) : FileTree :=
  writeDeclaration components
    <| writeTemplate "page.rain" "<a b>"
    <| writeTemplate "a.rain" "A"
    <| writeTemplate "a b.rain" "B" .empty

/-- Declared in another order, tags of one length and names that find one tag come out
differently. -/
theorem render_twins_and_sharedTag :
    (HasDistinctTags
        (Host.default.declared (twins "[\"a.rain\",\"b.rain\"]") "/rain/page.rain".toList) ∧
      (Host.default.declared (twins "[\"a.rain\",\"b.rain\"]") "/rain/page.rain".toList).Perm
        (Host.default.declared (twins "[\"b.rain\",\"a.rain\"]") "/rain/page.rain".toList) ∧
      ((new "/rain".toList .default .default).render (twins "[\"a.rain\",\"b.rain\"]")
          (.one "page.rain".toList) []).1 = "BB".toList ∧
      ((new "/rain".toList .default .default).render (twins "[\"b.rain\",\"a.rain\"]")
          (.one "page.rain".toList) []).1 = "<b></b>B".toList) ∧
    HasDistinctTags
        (Host.default.declared (sharedTag "[\"a.rain\",\"a b.rain\"]") "/rain/page.rain".toList) ∧
      (Host.default.declared (sharedTag "[\"a.rain\",\"a b.rain\"]") "/rain/page.rain".toList).Perm
        (Host.default.declared (sharedTag "[\"a b.rain\",\"a.rain\"]") "/rain/page.rain".toList) ∧
      ((new "/rain".toList .default .default).render (sharedTag "[\"a.rain\",\"a b.rain\"]")
          (.one "page.rain".toList) []).1 = ['A'] ∧
      ((new "/rain".toList .default .default).render (sharedTag "[\"a b.rain\",\"a.rain\"]")
          (.one "page.rain".toList) []).1 = ['B'] := by
  constructor <;> decide +kernel

end ComponentMarkup.Site
