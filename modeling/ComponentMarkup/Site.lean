import ComponentMarkup.Cache.Snapshot
import ComponentMarkup.Component.Render
import ComponentMarkup.Discovery

/-!
# Sites

A site is a directory of components with options, a model host and a cache that lives as long as
the site. One component is rendered with data; a list of components is rendered each without data
and with a line break behind it. Warming a site renders every component in it once.

A site narrowed to one kind of segment has an empty cache of its own and shares the host.
-/

namespace ComponentMarkup

open Component

structure Site where
  root : Path
  options : Options
  host : Host
  cache : Cache

namespace Site

/-- What is rendered: one component, or several. -/
inductive Target where
  | one (reference : Path)
  | many (references : List Path)
  deriving DecidableEq, Repr

/-- A site with an empty cache. -/
def new (root : Path) (options : Options) (host : Host) : Site :=
  ⟨root, options, host, .ofPolicy options.cache.policy⟩

def setting (site : Site) (tree : FileTree) : Setting := ⟨tree, site.options⟩

/-- What the first rendering of a call is handed. -/
def start (site : Site) : State := ⟨site.cache, site.host, []⟩

/-- The site after a call. -/
def resume (site : Site) (state : State) : Site :=
  { site with cache := state.cache, host := state.host }

/-- Renders a component of the site. -/
def renderComponent (site : Site) (tree : FileTree) (reference : Path) (data : Data)
    (state : State) : Text × State :=
  let (rendered, state) :=
    Component.render (site.setting tree) site.options.maxDepth state
      ⟨site.root, reference, data, []⟩
  (rendered.output, state)

/-- Renders components of the site without data, each with a line break behind it. -/
def renderMany (site : Site) (tree : FileTree) : List Path → State → Text × State
  | [], state => ([], state)
  | reference :: rest, state =>
    let (first, state) := site.renderComponent tree reference [] state
    let (others, state) := renderMany site tree rest state
    (first ++ '\n' :: others, state)

def renderTarget (site : Site) (tree : FileTree) (target : Target) (data : Data) (state : State) :
    Text × State :=
  match target with
  | .one reference => site.renderComponent tree reference data state
  | .many references => site.renderMany tree references state

/-- Renders a target: the output, the calls of renderers, and the site afterwards. -/
def render (site : Site) (tree : FileTree) (target : Target) (data : Data) :
    Text × List Call × Site :=
  let (output, state) := site.renderTarget tree target data site.start
  (output, state.calls, site.resume state)

/-- The site narrowed to one kind of segment, with an empty cache. -/
def narrow (site : Site) (kind : SegmentKind) : Site :=
  new site.root (site.options.only kind) site.host

/-- Renders components one after the other and counts those that do not come out empty. -/
def renderCounting (site : Site) (tree : FileTree) : List Path → State → Nat × State
  | [], state => (0, state)
  | reference :: rest, state =>
    let (output, state) := site.renderComponent tree reference [] state
    let (count, state) := renderCounting site tree rest state
    (if output.isEmpty then count else count + 1, state)

/-- The components below the root, as references from the root. -/
def components (site : Site) (tree : FileTree) : List Path :=
  (Discovery.names tree site.root site.options.extension).map (Text.joinWith ['/'])

/-- Renders every component of the site once: how many do not come out empty, the calls of
renderers, and the site afterwards. -/
def warm (site : Site) (tree : FileTree) : Nat × List Call × Site :=
  let (count, state) := site.renderCounting tree (site.components tree) site.start
  (count, state.calls, site.resume state)

def clear (site : Site) : Site := { site with cache := site.cache.clear }

def snapshot (site : Site) : Text := site.cache.snapshot

/-- Puts the entries of a snapshot into the cache. -/
def restore? (site : Site) (text : Text) : Option Site :=
  (site.cache.restore? text).map fun cache => { site with cache }

end Site

end ComponentMarkup
