import ComponentMarkup.Proofs.Component.Runs
import ComponentMarkup.Site

/-!
# What is consulted is recorded

A child that a component consults decides what the component comes to, so the entry of the component
lists it, and so do the entries of all components around it that are stored in the same call. With
another stamp of the child none of these entries is used again. A child that is missing is listed
with the place where it would be. A child that is there and cannot be read is the exception: it is
listed nowhere.
-/

namespace ComponentMarkup.Site

open Component FileTree

/-- What a run consults is listed in the entry of every run that it is reached from, and that entry
is no longer used once the file has another stamp. -/
theorem exists_stores_of_consults {setting : Setting} {ancestor run : Run}
    (hreaches : Run.Reaches setting ancestor run) {path : Path} {source : Text} {visit : Visit}
    {state : State} (hvisits : run.Visits setting path source visit state)
    {dependency : Dependency}
    (hconsults : Consults setting run.depth (run.page setting path source) visit state
      dependency) :
    dependency.modified = setting.tree.stamp dependency.path ∧
      ∃ key entry, ancestor.Stores setting key entry ∧ dependency ∈ entry.dependencies ∧
        ∀ (later : FileTree) (cache : Cache) (modified : Stamp) (fingerprint : Text),
          cache.find? key = some entry →
            later.stamp dependency.path ≠ setting.tree.stamp dependency.path →
              (cache.get later key modified fingerprint).1 = none := by
  have hmodified : dependency.modified = setting.tree.stamp dependency.path := by
    cases hconsults <;> rfl
  have hlists : run.Lists setting dependency := Run.lists_of_consults hvisits hconsults
  obtain ⟨key, entry, hstores, hmem⟩ := hreaches.lists hlists
  refine ⟨hmodified, key, entry, hstores, hmem, ?_⟩
  intro later cache modified fingerprint hfind hstale
  rw [← hmodified] at hstale
  exact Cache.get_eq_none_of_stale hfind hmem hstale

/-! ## A card in a list -/

/-- A page with a list, in which there is a card with this content. -/
def listOfCard (card : Content) : FileTree :=
  let file (name content : String) (tree : FileTree) : FileTree :=
    tree.write ("/rain/".toList ++ name.toList) (.text content.toList) (some 1)
  (file "page.rain" "<template><list></list></template>"
    <| file "page.json" "\x7b\"components\":[\"list.rain\"]\x7d"
    <| file "list.rain" "<template>[<card></card>]</template>"
    <| file "list.json" "\x7b\"components\":[\"card.rain\"]\x7d" .empty).write
    "/rain/card.rain".toList card (some 1)

def cardSetting : Setting := ⟨listOfCard (.text "<template>C</template>".toList), .default⟩

def pageRun : Run :=
  ⟨64, ⟨.ofPolicy .unbounded, .default, []⟩, ⟨"/rain".toList, "page.rain".toList, [], []⟩⟩

def pageSource : Text := "<template><list></list></template>".toList

def listSource : Text := "<template>[<card></card>]</template>".toList

/-- The tag of the list, and the state in which the list is rendered. -/
def listStep : Visit × State :=
  (pageRun.steps cardSetting "/rain/page.rain".toList pageSource).head (by decide +kernel)

def listRun : Run :=
  ⟨63, listStep.2, childRequest cardSetting listStep.2.host
    (pageRun.page cardSetting "/rain/page.rain".toList pageSource) listStep.1.tag
    "/rain/list.rain".toList⟩

/-- The tag of the card in the list, and the state in which the card is rendered. -/
def cardStep : Visit × State :=
  (listRun.steps cardSetting "/rain/list.rain".toList listSource).head (by decide +kernel)

theorem page_stores_card :
    Run.Reaches cardSetting pageRun listRun ∧
      listRun.Visits cardSetting "/rain/list.rain".toList listSource cardStep.1 cardStep.2 ∧
      Consults cardSetting listRun.depth
        (listRun.page cardSetting "/rain/list.rain".toList listSource) cardStep.1 cardStep.2
        (.of cardSetting.tree "/rain/card.rain".toList) ∧
      ∃ key entry, pageRun.Stores cardSetting key entry ∧
        Dependency.of cardSetting.tree "/rain/card.rain".toList ∈ entry.dependencies ∧
        ∀ (later : FileTree) (cache : Cache) (modified : Stamp) (fingerprint : Text),
          cache.find? key = some entry →
            later.stamp "/rain/card.rain".toList ≠ some 1 →
              (cache.get later key modified fingerprint).1 = none := by
  have hpage : Reads cardSetting pageRun.state pageRun.request "/rain/page.rain".toList
      pageSource := ⟨by decide +kernel, by decide +kernel, by rfl⟩
  have hlist : Reads cardSetting listRun.state listRun.request "/rain/list.rain".toList
      listSource := ⟨by decide +kernel, by decide +kernel, by rfl⟩
  have hreaches : Run.Reaches cardSetting pageRun listRun :=
    .child (.refl pageRun) ⟨hpage, List.head_mem _⟩ (by decide +kernel) rfl
  have hvisits : listRun.Visits cardSetting "/rain/list.rain".toList listSource cardStep.1
      cardStep.2 := ⟨hlist, List.head_mem _⟩
  have hconsults : Consults cardSetting listRun.depth
      (listRun.page cardSetting "/rain/list.rain".toList listSource) cardStep.1 cardStep.2
      (.of cardSetting.tree "/rain/card.rain".toList) :=
    .child (by decide +kernel) (by decide) (Or.inr (by decide +kernel))
  exact ⟨hreaches, hvisits, hconsults, (exists_stores_of_consults hreaches hvisits hconsults).2⟩

/-- A card that is no text is listed nowhere: when it becomes one, the page stays as it was. -/
theorem render_unreadableCard_stale :
    let site := new "/rain".toList .default .default
    let before := listOfCard .binary
    let after := before.write "/rain/card.rain".toList (.text "<template>C</template>".toList) (some 2)
    let first := site.render before (.one "page.rain".toList) []
    resolve? before Options.default.extension "/rain".toList "card.rain".toList =
        some "/rain/card.rain".toList ∧
      (first.2.2.cache.entries.all fun entry ↦
        entry.2.dependencies.all fun dependency ↦ dependency.path ≠ "/rain/card.rain".toList) ∧
      first.2.2.cache.paths = ["/rain/list.rain".toList, "/rain/page.rain".toList] ∧
      (first.2.2.render after (.one "page.rain".toList) []).1 = "[]".toList ∧
      (site.render after (.one "page.rain".toList) []).1 = "[C]".toList := by
  decide +kernel

end ComponentMarkup.Site
