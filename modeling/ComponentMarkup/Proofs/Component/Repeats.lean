import ComponentMarkup.Proofs.Component.Alike
import ComponentMarkup.Proofs.Component.Resolve
import ComponentMarkup.Proofs.Component.Reuse

/-!
# Components that are asked for again

An entry is used for every asking with its path and its fingerprint. Where digests tell the inputs
apart, these are askings with one input, and where such askings come out the same, entries show the
outcomes that they stand for. The depth is no part of an entry, so it is askings at different depths
that may come out differently, one of them being cut off deep down.
-/

namespace ComponentMarkup.Component

/-- Two askings for one component with one input. -/
def Asking.Repeats (setting : Setting) (a b : Asking) : Prop :=
  a.request.path? setting = b.request.path? setting ∧ a.request.inputText = b.request.inputText

instance (setting : Setting) (a b : Asking) : Decidable (a.Repeats setting b) :=
  inferInstanceAs (Decidable (_ ∧ _))

/-- What is asked for again at another depth comes out the same. -/
def DepthsAgree (setting : Setting) (host : Host) (askings : List Asking) : Prop :=
  ∀ a ∈ askings, ∀ b ∈ askings, a.Repeats setting b → a.depth ≠ b.depth →
    (a.outcome setting host).output = (b.outcome setting host).output

instance (setting : Setting) (host : Host) (askings : List Asking) :
    Decidable (DepthsAgree setting host askings) :=
  inferInstanceAs (Decidable (∀ a ∈ askings, ∀ b ∈ askings, _ → _ → _))

/-- What is asked for again comes out the same. -/
def RepeatsAgree (setting : Setting) (host : Host) (askings : List Asking) : Prop :=
  ∀ a ∈ askings, ∀ b ∈ askings, a.Repeats setting b →
    (a.outcome setting host).output = (b.outcome setting host).output

instance (setting : Setting) (host : Host) (askings : List Asking) :
    Decidable (RepeatsAgree setting host askings) :=
  inferInstanceAs (Decidable (∀ a ∈ askings, ∀ b ∈ askings, _ → _))

/-- Where nothing is registered, what is asked for again at the same depth comes out the same. -/
theorem Asking.outcome_eq_of_repeats {setting : Setting} {host : Host} (h : host.IsBare)
    {a b : Asking} (hab : a.Repeats setting b) (hdepth : a.depth = b.depth) :
    a.outcome setting host = b.outcome setting host := by
  have halike := Request.alike_of_inputText hab.1 hab.2
  rw [Asking.outcome, Asking.outcome, hdepth]
  exact outcome_alike h b.depth halike

/-- Where nothing is registered, only the depth can make a difference. -/
theorem repeatsAgree_of_depthsAgree {setting : Setting} {host : Host} (h : host.IsBare)
    {askings : List Asking} (hdepth : DepthsAgree setting host askings) :
    RepeatsAgree setting host askings := by
  intro a ha b hb hrepeats
  by_cases heq : a.depth = b.depth
  · rw [Asking.outcome_eq_of_repeats h hrepeats heq]
  · exact hdepth a ha b hb hrepeats heq

/-- An entry that has the output of one of the askings. -/
def IsEntryOf (setting : Setting) (host : Host) (askings : List Asking) (path : Path)
    (entry : Cache.Entry) : Prop :=
  ∃ asking ∈ askings, asking.request.path? setting = some path ∧
    entry.fingerprint = asking.request.fingerprint ∧
    entry.output = (asking.outcome setting host).output

theorem keptByReuse_isEntryOf {setting : Setting} {host : Host} (policy : Cache.Policy)
    {askings : List Asking}
    (hclosed : ∀ {depth request child}, ⟨depth + 1, request⟩ ∈ askings →
      child ∈ childRequests setting host request → ⟨depth, child⟩ ∈ askings)
    (hdigest : DigestsTellApart (inputTexts askings))
    (hagree : RepeatsAgree setting host askings) :
    KeptByReuse setting host policy Rendered.SameOutput (· ∈ askings)
      (IsEntryOf setting host askings) where
  closed := hclosed
  use := by
    intro key path entry asking hentry hasking hpath hsame hfresh
    obtain ⟨earlier, hearlier, hkey, hfingerprint, houtput⟩ := hentry
    have heq : key = path :=
      (isCanonical_of_path? hkey).eq_of_same (isCanonical_of_path? hpath) hsame
    have hpaths : earlier.request.path? setting = asking.request.path? setting := by
      rw [hkey, hpath, heq]
    have hfingerprints : earlier.request.fingerprint = asking.request.fingerprint := by
      rw [← hfingerprint]
      simp only [Cache.Entry.isFresh, Bool.and_eq_true, decide_eq_true_eq] at hfresh
      exact hfresh.1.1.2
    have hinputs : earlier.request.inputText = asking.request.inputText :=
      hdigest.inputText_eq (List.mem_map.2 ⟨earlier, hearlier, rfl⟩)
        (List.mem_map.2 ⟨asking, hasking, rfl⟩) hfingerprints
    calc
      entry.output = (earlier.outcome setting host).output := houtput
      _ = (asking.outcome setting host).output :=
        hagree earlier hearlier asking hasking ⟨hpaths, hinputs⟩
  make := by
    intro path asking draft output dependencies hasking hdraft hpath hlooks
    exact ⟨asking, hasking, by rw [path?_of_draft? hdraft, hpath], rfl, hlooks⟩

/-! ## Components that come out the same whatever they are given -/

/-- Askings for one component come out the same. -/
def PathsAgree (setting : Setting) (host : Host) (askings : List Asking) : Prop :=
  ∀ a ∈ askings, ∀ b ∈ askings, a.request.path? setting = b.request.path? setting →
    (a.outcome setting host).output = (b.outcome setting host).output

/-- An entry of the component of one of the askings, with the output of the asking. -/
def IsOutputOf (setting : Setting) (host : Host) (askings : List Asking) (path : Path)
    (entry : Cache.Entry) : Prop :=
  ∃ asking ∈ askings, asking.request.path? setting = some path ∧
    entry.output = (asking.outcome setting host).output

/-- Where the component decides the output, no digest has to tell anything apart. -/
theorem keptByReuse_isOutputOf {setting : Setting} {host : Host} (policy : Cache.Policy)
    {askings : List Asking}
    (hclosed : ∀ {depth request child}, ⟨depth + 1, request⟩ ∈ askings →
      child ∈ childRequests setting host request → ⟨depth, child⟩ ∈ askings)
    (hagree : PathsAgree setting host askings) :
    KeptByReuse setting host policy Rendered.SameOutput (· ∈ askings)
      (IsOutputOf setting host askings) where
  closed := hclosed
  use := by
    intro key path entry asking hentry hasking hpath hsame _
    obtain ⟨earlier, hearlier, hkey, houtput⟩ := hentry
    have heq : key = path :=
      (isCanonical_of_path? hkey).eq_of_same (isCanonical_of_path? hpath) hsame
    have hpaths : earlier.request.path? setting = asking.request.path? setting := by
      rw [hkey, hpath, heq]
    exact houtput.trans (hagree earlier hearlier asking hasking hpaths)
  make := by
    intro path asking draft output dependencies hasking hdraft hpath hlooks
    exact ⟨asking, hasking, by rw [path?_of_draft? hdraft, hpath], hlooks⟩

end ComponentMarkup.Component
