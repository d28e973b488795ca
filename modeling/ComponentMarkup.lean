import ComponentMarkup.Site
import ComponentMarkup.Proofs.Component.Reuse
import ComponentMarkup.Proofs.Json.Outline
import ComponentMarkup.Proofs.Component.Alike
import ComponentMarkup.Proofs.Site.Calls
import ComponentMarkup.Proofs.Site.Policy
import ComponentMarkup.Proofs.FileTree.Lookup
import ComponentMarkup.Proofs.FileTree.Agreement
import ComponentMarkup.Proofs.Component.Footprint
import ComponentMarkup.Proofs.Cache.Snapshot
import ComponentMarkup.Proofs.Site.Session
import ComponentMarkup.Proofs.Stylesheet.Lexemes
import ComponentMarkup.Proofs.Forest.Written
import ComponentMarkup.Proofs.Component.Substitution
import ComponentMarkup.Proofs.Forest.Expanded
import ComponentMarkup.Proofs.Json.Overlay
import ComponentMarkup.Proofs.Template.Children
import ComponentMarkup.Proofs.Site.ForestPage
import ComponentMarkup.Proofs.Template.Components
import ComponentMarkup.Proofs.Component.Reorder
import ComponentMarkup.Proofs.Site.Order
import ComponentMarkup.Proofs.Component.Exits
import ComponentMarkup.Proofs.Component.Runs
import ComponentMarkup.Proofs.Site.Consulted
import ComponentMarkup.Proofs.Site.Again
import ComponentMarkup.Proofs.Site.Absence
import ComponentMarkup.Proofs.Site.Relocation
import ComponentMarkup.Proofs.Stylesheet.Spacing
import ComponentMarkup.Proofs.Stylesheet.Balance
import ComponentMarkup.Proofs.Stylesheet.Selectors
import ComponentMarkup.Proofs.Stylesheet.Grammar
import ComponentMarkup.Proofs.Stylesheet.Written
import ComponentMarkup.Proofs.Stylesheet.Collapsed
import ComponentMarkup.Proofs.Stylesheet.Scoped
import ComponentMarkup.Proofs.Template.Surface
import ComponentMarkup.Proofs.Template.Characters
import ComponentMarkup.Proofs.Template.Splitting
import ComponentMarkup.Proofs.Template.Reading
import ComponentMarkup.Proofs.Template.Meaning
import ComponentMarkup.Proofs.Component.Calls
import ComponentMarkup.Proofs.Component.Narrowed
import ComponentMarkup.Proofs.Component.Contributions
import ComponentMarkup.Proofs.Site.Narrow
import ComponentMarkup.Proofs.Tag.Geometry
import ComponentMarkup.Proofs.Cache.Restore
import ComponentMarkup.Proofs.Segment.Written
import ComponentMarkup.Proofs.Template.Escaped
import ComponentMarkup.Proofs.Tag.Quotes
import ComponentMarkup.Proofs.Cache.History
import ComponentMarkup.Proofs.Site.Warmed
import ComponentMarkup.Proofs.Tag.Alone
import ComponentMarkup.Proofs.Attributes.OpeningTag
import ComponentMarkup.Proofs.Attributes.Rendered
import ComponentMarkup.Proofs.Template.Closing
import ComponentMarkup.Proofs.Template.Wrapper
import ComponentMarkup.Proofs.Component.Recorded
import ComponentMarkup.Proofs.Site.BoundAttribute
import ComponentMarkup.Proofs.Stylesheet.Lossless
import ComponentMarkup.Proofs.Stylesheet.Braces
import ComponentMarkup.Proofs.Stylesheet.Comments
import ComponentMarkup.Proofs.Stylesheet.Edits
import ComponentMarkup.Proofs.Style.Script
import ComponentMarkup.Proofs.Cache.Fingerprint
import ComponentMarkup.Proofs.Component.Stable
import ComponentMarkup.Proofs.FileTree.Complete
import ComponentMarkup.Proofs.Stylesheet.Lists
import ComponentMarkup.Proofs.Template.Pieces
import ComponentMarkup.Proofs.Json.Fields
import ComponentMarkup.Proofs.Json.Grammar
import ComponentMarkup.Proofs.Options.Overlay
