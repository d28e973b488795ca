import ComponentMarkup.Proofs.Cache.Snapshot
import ComponentMarkup.Proofs.Component.Footprint
import ComponentMarkup.Proofs.Site.Calls

/-!
# Sessions with edits

In a session one site is rendered again and again while files are written and removed, its cache is
cleared, and snapshots are taken and restored. No output of a session is stale: each is what a new
site gives on the files as they are at that moment.

What carries this is a record of every entry, in the cache and in the snapshots: there was a tree
in the session in which the output and the dependencies of the entry were the outcome of an
asking. The trees of a session agree where stamps do, so a fresh entry shows the outcome in the tree
of the moment as well. Everything has to have a stamp, a write must not bring back one that its
path had before, a directory must not get one that its path had as a file, and what is asked for
has to be orderly.
-/

namespace ComponentMarkup

open Component FileTree

/-! ## Records of entries -/

namespace Component

/-- All that is asked for on the way is orderly, and its digested text is one of these. -/
def Asking.IsTracked (setting : Setting) (texts : List Text) (asking : Asking) : Prop :=
  ∀ below ∈ asked setting .default asking.depth asking.request,
    below.IsOrderly setting .default ∧ below.request.inputText ∈ texts

/-- An entry that was put in for an asking, in one of these trees. -/
structure IsRecordOf (options : Options) (texts : List Text) (tree : FileTree) (asking : Asking)
    (path : Path) (entry : Cache.Entry) : Prop where
  named : asking.request.path? ⟨tree, options⟩ = some path
  modified : entry.modified = tree.stamp path
  fingerprint : entry.fingerprint = asking.request.fingerprint
  tracked : asking.IsTracked ⟨tree, options⟩ texts
  result : resultOf ⟨tree, options⟩ path entry = asking.outcome ⟨tree, options⟩ .default

def IsRecorded (options : Options) (texts : List Text) (past : List FileTree) (path : Path)
    (entry : Cache.Entry) : Prop :=
  ∃ tree ∈ past, ∃ asking, IsRecordOf options texts tree asking path entry

variable {options : Options} {texts : List Text} {tree now : FileTree}

theorem IsRecorded.mono {past longer : List FileTree} (h : past ⊆ longer) {path : Path}
    {entry : Cache.Entry} (hentry : IsRecorded options texts past path entry) :
    IsRecorded options texts longer path entry := by
  obtain ⟨tree, htree, hrecord⟩ := hentry
  exact ⟨tree, h htree, hrecord⟩

theorem Asking.IsTracked.child {setting : Setting} {depth : Nat} {request child : Request}
    (h : Asking.IsTracked setting texts ⟨depth + 1, request⟩)
    (hchild : child ∈ childRequests setting .default request) :
    Asking.IsTracked setting texts ⟨depth, child⟩ := by
  intro below hbelow
  apply h below
  exact List.mem_cons_of_mem _ (List.mem_flatMap.2 ⟨child, hchild, hbelow⟩)

theorem Asking.IsTracked.inputText_mem {setting : Setting} {asking : Asking}
    (h : asking.IsTracked setting texts) : asking.request.inputText ∈ texts :=
  (h asking (self_mem_asked _ _ _ _)).2

/-- A fresh entry is a result of today. -/
theorem resultOf_of_isFresh (options : Options) {path : Path} {entry : Cache.Entry}
    {policy : Cache.Policy} {fingerprint : Text} (hmodified : entry.modified = tree.stamp path)
    (hfresh : entry.isFresh now policy (now.stamp path) fingerprint = true) :
    resultOf ⟨now, options⟩ path entry = resultOf ⟨tree, options⟩ path entry ∧
      AllCurrent now (resultOf ⟨tree, options⟩ path entry).dependencies := by
  simp only [Cache.Entry.isFresh, Bool.and_eq_true, decide_eq_true_eq, List.all_eq_true,
    Dependency.isCurrent] at hfresh
  have hstamp : now.stamp path = tree.stamp path := by rw [← hmodified, hfresh.1.1.1]
  constructor
  · simp only [resultOf, Dependency.of, hstamp]
  · intro dependency hdependency
    rcases List.mem_append.1 hdependency with hdependency | hdependency
    · exact hfresh.2 dependency hdependency
    · rw [List.mem_singleton.1 hdependency]
      exact hstamp

/-- A fresh entry with a record shows the outcome of every tracked asking that it is found for. -/
theorem IsRecordOf.outcome_eq {earlier asking : Asking} {key path : Path} {entry : Cache.Entry}
    {policy : Cache.Policy} (h : IsRecordOf options texts tree earlier key entry)
    (hagree : tree.Agrees now) (htree : tree.IsStamped) (hnow : now.IsStamped)
    (hdigest : DigestsTellApart texts) (hasking : asking.IsTracked ⟨now, options⟩ texts)
    (hpath : asking.request.path? ⟨now, options⟩ = some path) (hsame : Path.same key path = true)
    (hfresh : entry.isFresh now policy (now.stamp path) asking.request.fingerprint = true) :
    resultOf ⟨now, options⟩ path entry = asking.outcome ⟨now, options⟩ .default := by
  obtain rfl : key = path :=
    (isCanonical_of_path? h.named).eq_of_same (isCanonical_of_path? hpath) hsame
  have hfingerprint : earlier.request.fingerprint = asking.request.fingerprint := by
    rw [← h.fingerprint]
    simp only [Cache.Entry.isFresh, Bool.and_eq_true, decide_eq_true_eq] at hfresh
    exact hfresh.1.1.2
  have hinput : earlier.request.inputText = asking.request.inputText :=
    hdigest.inputText_eq h.tracked.inputText_mem hasking.inputText_mem hfingerprint
  obtain ⟨hdata, hinvocation⟩ := Cache.inputText_inj hinput
  obtain ⟨hresult, hcurrent⟩ := resultOf_of_isFresh options h.modified hfresh
  have hrecurs : Recurs tree now options .default earlier.depth asking.depth earlier.request
      asking.request key := by
    refine ⟨h.named, hpath, hinvocation, hdata, fun below hbelow ↦ (h.tracked below hbelow).1,
      fun below hbelow ↦ (hasking below hbelow).1.uncut, ?_⟩
    have houtcome := h.result
    rw [Asking.outcome] at houtcome
    rwa [← houtcome]
  calc
    resultOf ⟨now, options⟩ key entry = resultOf ⟨tree, options⟩ key entry := hresult
    _ = earlier.outcome ⟨tree, options⟩ .default := h.result
    _ = asking.outcome ⟨now, options⟩ .default :=
      (outcome_of_recurs hagree htree hnow (Host.isBare_ofExtension _) hrecurs).symm

/-- Trees of a session: everything in them has a stamp, and they agree with the tree of today. -/
def AllAgree (past : List FileTree) (now : FileTree) : Prop :=
  now ∈ past ∧ ∀ tree ∈ past, tree.IsStamped ∧ tree.Agrees now

/-- Reuse keeps the records of entries. -/
theorem keptByReuse_isRecorded (options : Options) {past : List FileTree} (hpast : AllAgree past now)
    (policy : Cache.Policy) (hdigest : DigestsTellApart texts) :
    KeptByReuse ⟨now, options⟩ .default policy Eq (Asking.IsTracked ⟨now, options⟩ texts)
      (IsRecorded options texts past) where
  closed := Asking.IsTracked.child
  use := by
    intro key path entry asking hentry hasking hpath hsame hfresh
    obtain ⟨tree, htree, earlier, hrecord⟩ := hentry
    obtain ⟨hstamped, hagree⟩ := hpast.2 tree htree
    exact hrecord.outcome_eq hagree hstamped (hpast.2 now hpast.1).1 hdigest hasking hpath hsame
      hfresh
  make := by
    intro path asking draft output dependencies hasking hdraft hpath hresult
    refine ⟨now, hpast.1, asking, ?_, rfl, rfl, hasking, hresult⟩
    rw [path?_of_draft? hdraft, hpath]

end Component

/-! ## Sessions -/

/-- What happens in a session. -/
inductive Event where
  | render (target : Site.Target) (data : Data)
  /-- A write dates its file, and anew the directories on the way to it. -/
  | write (path : Path) (content : Content) (stamp : Nat) (directories : List Text → Nat)
  | remove (path : Path) (directories : List Text → Nat)
  | clear
  | snapshot
  /-- Restores the snapshot that was taken in this place. -/
  | restore (place : Nat)

/-- A site on the files of the moment, with the snapshots that were taken of it. -/
structure Session where
  site : Site
  tree : FileTree
  snapshots : List Text

/-- An output with what was rendered on which files. -/
structure Rendering where
  tree : FileTree
  target : Site.Target
  data : Data
  output : Text

/-- A write, which gives a stamp to its path, or a removal; with the stamps of the directories on
the way behind it, and the trees that there were up to it. -/
structure Edit where
  past : List FileTree
  path : Path
  stamp? : Option Nat
  directories : List Text → Nat

namespace Session

def start (root : Path) (options : Options) (tree : FileTree) : Session :=
  ⟨.new root options .default, tree, []⟩

/-- A text that is no snapshot leaves the site as it is, and so does a place without one. -/
def restored (session : Session) (place : Nat) : Site :=
  (session.snapshots[place]?.bind session.site.restore?).getD session.site

def step (session : Session) : Event → Session
  | .render target data => { session with site := (session.site.render session.tree target data).2.2 }
  | .write path content stamp directories =>
    { session with tree := session.tree.writeDated path content stamp directories }
  | .remove path directories => { session with tree := session.tree.removeDated path directories }
  | .clear => { session with site := session.site.clear }
  | .snapshot => { session with snapshots := session.snapshots ++ [session.site.snapshot] }
  | .restore place => { session with site := session.restored place }

def rendering? (session : Session) : Event → Option Rendering
  | .render target data =>
    some ⟨session.tree, target, data, (session.site.render session.tree target data).1⟩
  | _ => none

def edit? (past : List FileTree) : Event → Option Edit
  | .write path _ stamp directories => some ⟨past, path, some stamp, directories⟩
  | .remove path directories => some ⟨past, path, none, directories⟩
  | _ => none

/-- The renderings of a session in their order. -/
def renderings (session : Session) : List Event → List Rendering
  | [] => []
  | event :: rest => (session.rendering? event).toList ++ renderings (session.step event) rest

/-- The writes and removals of a session in their order, each with the trees up to it behind
these. -/
def edits (session : Session) (past : List FileTree) : List Event → List Edit
  | [] => []
  | event :: rest =>
    (edit? past event).toList ++
      edits (session.step event) ((session.step event).tree :: past) rest

end Session

/-- A write gives its path a stamp that the path never had before. -/
def Edit.DatesAnew (edit : Edit) : Prop :=
  ∀ stamp ∈ edit.stamp?, IsNewStamp edit.past edit.path stamp

/-- Beside that, no directory on the way gets a stamp that its path had as a file. -/
def Edit.IsFresh (edit : Edit) : Prop :=
  edit.DatesAnew ∧ IsNewWay edit.past edit.path edit.directories

instance (edit : Edit) : Decidable edit.DatesAnew :=
  inferInstanceAs (Decidable (∀ _ ∈ _, _))

instance (edit : Edit) : Decidable edit.IsFresh :=
  inferInstanceAs (Decidable (_ ∧ _))

/-- What a rendering asks for. -/
def Rendering.asked (rendering : Rendering) (root : Path) (options : Options) : List Asking :=
  (Site.new root options .default).asked rendering.tree rendering.target rendering.data

namespace Component

/-! ## Trees of a session -/

section Trees

variable {past : List FileTree} {tree : FileTree}

/-- A tree that all earlier ones agree with goes on with the session. -/
theorem AllAgree.cons {next : FileTree} (h : AllAgree past tree) (hstamped : next.IsStamped)
    (hagree : ∀ earlier ∈ past, earlier.Agrees next) : AllAgree (next :: past) next := by
  refine ⟨List.mem_cons_self, fun other hother ↦ ?_⟩
  rcases List.mem_cons.1 hother with rfl | hother
  · exact ⟨hstamped, Agrees.refl other⟩
  · exact ⟨(h.2 other hother).1, hagree other hother⟩

theorem AllAgree.self (h : AllAgree past tree) : AllAgree (tree :: past) tree :=
  h.cons (h.2 tree h.1).1 fun earlier hearlier ↦ (h.2 earlier hearlier).2

theorem AllAgree.writeDated (h : AllAgree past tree) {path : Path} {stamp : Nat}
    {directories : List Text → Nat} (hnew : IsNewStamp past path stamp)
    (hway : IsNewWay past path directories) (content : Content) :
    AllAgree (tree.writeDated path content stamp directories :: past)
      (tree.writeDated path content stamp directories) := by
  apply h.cons ((h.2 tree h.1).1.writeDated content stamp)
  intro earlier hearlier
  obtain ⟨hstamped, hagree⟩ := h.2 earlier hearlier
  exact hagree.writeDated hearlier hstamped hnew hway content

theorem AllAgree.removeDated (h : AllAgree past tree) {path : Path}
    {directories : List Text → Nat} (hway : IsNewWay past path directories) :
    AllAgree (tree.removeDated path directories :: past) (tree.removeDated path directories) := by
  apply h.cons (h.2 tree h.1).1.removeDated
  intro earlier hearlier
  obtain ⟨hstamped, hagree⟩ := h.2 earlier hearlier
  exact hagree.removeDated hearlier hstamped hway

end Trees

end Component

namespace Session

variable {root : Path} {options : Options} {texts : List Text} {past : List FileTree}
  {session : Session}

/-- All that is asked for at the top of a rendering is tracked. -/
def IsTrackedCall (root : Path) (options : Options) (texts : List Text) (tree : FileTree)
    (target : Site.Target) (data : Data) : Prop :=
  ∀ request ∈ (Site.new root options .default).requests target data,
    Asking.IsTracked ⟨tree, options⟩ texts ⟨options.maxDepth, request⟩

/-- A session in which every entry is recorded, in the cache and in the snapshots. -/
structure IsSound (root : Path) (options : Options) (texts : List Text) (past : List FileTree)
    (session : Session) : Prop where
  root_eq : session.site.root = root
  options_eq : session.site.options = options
  host_eq : session.site.host = .default
  trees : AllAgree past session.tree
  entries : ∀ entry ∈ session.site.cache.entries, IsRecorded options texts past entry.1 entry.2
  snapshots : ∀ text ∈ session.snapshots, ∃ cache : Cache, text = cache.snapshot ∧
    ∀ entry ∈ cache.entries, IsRecorded options texts past entry.1 entry.2

/-- A site with recorded entries shows the outcome of a tracked call, as a new site does. -/
theorem render_shows_of_isRecorded {tree : FileTree} (htrees : AllAgree past tree)
    (hdigest : DigestsTellApart texts) (cache : Cache)
    (hentries : ∀ entry ∈ cache.entries, IsRecorded options texts past entry.1 entry.2)
    {target : Site.Target} {data : Data}
    (htracked : IsTrackedCall root options texts tree target data) :
    let site : Site := ⟨root, options, .default, cache⟩
    (site.render tree target data).1 =
        (Site.new root options .default).outcome tree target data ∧
      (site.render tree target data).2.2.host = .default ∧
      ∀ entry ∈ (site.render tree target data).2.2.cache.entries,
        IsRecorded options texts past entry.1 entry.2 := by
  intro site
  have hkept := keptByReuse_isRecorded options htrees cache.policy hdigest
  have hbare : site.host.IsBare := Host.isBare_ofExtension _
  obtain ⟨houtput, hhost, _, hafter⟩ :=
    Site.render_shows isObservation_eq hbare.isSteady hkept htracked rfl hentries
  refine ⟨?_, hbare.eq_of_now_eq hhost, hafter⟩
  rw [houtput]
  cases target <;> rfl

namespace IsSound

variable (h : IsSound root options texts past session)

include h in
theorem render (hdigest : DigestsTellApart texts) {target : Site.Target} {data : Data}
    (htracked : IsTrackedCall root options texts session.tree target data) :
    (session.site.render session.tree target data).1 =
        (Site.new root options .default).outcome session.tree target data ∧
      IsSound root options texts past (session.step (.render target data)) := by
  obtain ⟨⟨_, _, _, cache⟩, tree, snapshots⟩ := session
  obtain ⟨rfl, rfl, rfl, htrees, hentries, hsnapshots⟩ := h
  obtain ⟨houtput, hhost, hafter⟩ :=
    render_shows_of_isRecorded htrees hdigest cache hentries htracked
  exact ⟨houtput, rfl, rfl, hhost, htrees, hafter, hsnapshots⟩

include h in
/-- More trees make no record wrong. -/
theorem mono {tree : FileTree} (htrees : AllAgree (tree :: past) tree) :
    IsSound root options texts (tree :: past) { session with tree } where
  root_eq := h.root_eq
  options_eq := h.options_eq
  host_eq := h.host_eq
  trees := htrees
  entries := fun entry hentry ↦ (h.entries entry hentry).mono (List.subset_cons_self _ _)
  snapshots := by
    intro text htext
    obtain ⟨cache, hcache, hentries⟩ := h.snapshots text htext
    exact ⟨cache, hcache, fun entry hentry ↦
      (hentries entry hentry).mono (List.subset_cons_self _ _)⟩

include h in
theorem snapshot : IsSound root options texts past (session.step .snapshot) where
  root_eq := h.root_eq
  options_eq := h.options_eq
  host_eq := h.host_eq
  trees := h.trees
  entries := h.entries
  snapshots := by
    intro text htext
    rcases List.mem_append.1 htext with htext | htext
    · exact h.snapshots text htext
    · exact ⟨session.site.cache, List.mem_singleton.1 htext, h.entries⟩

include h in
/-- A snapshot brings back recorded entries only. -/
theorem restore (place : Nat) : IsSound root options texts past (session.step (.restore place)) := by
  cases hsnapshot : session.snapshots[place]?.bind session.site.restore? with
  | none =>
    have hsame : session.step (.restore place) = session := by
      simp only [step, restored, hsnapshot, Option.getD_none]
    rw [hsame]
    exact h
  | some site =>
    obtain ⟨text, htext, hrestore⟩ := Option.bind_eq_some_iff.1 hsnapshot
    obtain ⟨cache, hcache, rfl⟩ := Option.map_eq_some_iff.1 hrestore
    have hnext : session.step (.restore place) =
        { session with site := { session.site with cache } } := by
      simp only [step, restored, hsnapshot, Option.getD_some]
    rw [hnext]
    obtain ⟨old, rfl, hold⟩ := h.snapshots text (List.mem_of_getElem? htext)
    refine ⟨h.root_eq, h.options_eq, h.host_eq, h.trees, ?_, h.snapshots⟩
    intro entry hentry
    rcases Cache.mem_restore? hcache hentry with hentry | hentry
    · exact h.entries entry hentry
    · exact hold entry hentry

include h in
/-- One event keeps a session sound. -/
theorem step (hdigest : DigestsTellApart texts) (event : Event)
    (hfresh : ∀ edit ∈ edit? past event, edit.IsFresh)
    (htracked : ∀ rendering ∈ session.rendering? event,
      IsTrackedCall root options texts rendering.tree rendering.target rendering.data) :
    IsSound root options texts ((session.step event).tree :: past) (session.step event) := by
  cases event with
  | render target data =>
    have hnext := (h.render hdigest (htracked _ rfl)).2
    exact hnext.mono hnext.trees.self
  | write path content stamp directories =>
    obtain ⟨hnew, hway⟩ := hfresh _ rfl
    exact h.mono (h.trees.writeDated (hnew stamp rfl) hway content)
  | remove path directories =>
    obtain ⟨_, hway⟩ := hfresh _ rfl
    exact h.mono (h.trees.removeDated hway)
  | clear =>
    have hsame := h.mono h.trees.self
    exact { hsame with entries := fun _ hentry ↦ absurd hentry List.not_mem_nil }
  | snapshot => exact h.snapshot.mono h.trees.self
  | restore place => exact (h.restore place).mono h.trees.self

include h in
/-- What a sound session renders is what a new site renders. -/
theorem output_eq (hdigest : DigestsTellApart texts) {event : Event} {rendering : Rendering}
    (hrendering : rendering ∈ session.rendering? event)
    (htracked : IsTrackedCall root options texts rendering.tree rendering.target rendering.data) :
    rendering.output =
      ((Site.new root options .default).render rendering.tree rendering.target
        rendering.data).1 := by
  cases event with
  | render target data =>
    obtain rfl := Option.some.inj hrendering
    have hnew := render_shows_of_isRecorded h.trees hdigest (.ofPolicy options.cache.policy)
      (fun _ hentry ↦ absurd hentry List.not_mem_nil) htracked
    calc
      (session.site.render session.tree target data).1 =
          (Site.new root options .default).outcome session.tree target data :=
        (h.render hdigest htracked).1
      _ = ((Site.new root options .default).render session.tree target data).1 := hnew.1.symm
  | _ => exact absurd hrendering (by simp [rendering?])

end IsSound

end Session

end ComponentMarkup
