import Refsite.Asset.Copy
import Refsite.Asset.Ignore
import Refsite.Asset.Scan
import Refsite.CommandLine.Arguments
import Refsite.CommandLine.Execute
import Refsite.CommandLine.Reach
import Refsite.Decimal.Binary64
import Refsite.Decimal.Shortest
import Refsite.Disk.Basic
import Refsite.Disk.Path
import Refsite.Doclet
import Refsite.Doclet.Dump
import Refsite.Failure
import Refsite.Host
import Refsite.Html.Escape
import Refsite.Json.Basic
import Refsite.Json.Inspect
import Refsite.Json.Parser
import Refsite.Json.Printer
import Refsite.Link.Anchor
import Refsite.Link.Inline
import Refsite.Link.Registry
import Refsite.Link.Stem
import Refsite.Log
import Refsite.Main
import Refsite.Markdown.Block
import Refsite.Markdown.Emphasis
import Refsite.Markdown.Html
import Refsite.Markdown.Inline
import Refsite.Markdown.Raw
import Refsite.Markdown.Reader
import Refsite.Markdown.Span
import Refsite.Markdown.Star
import Refsite.Markdown.Table
import Refsite.Misfit
import Refsite.Page.Body
import Refsite.Page.Details
import Refsite.Page.Item
import Refsite.Page.Sheet
import Refsite.Page.Style
import Refsite.Page.Template
import Refsite.Page.Theme
import Refsite.Plain
import Refsite.Proofs.Asset.Scan
import Refsite.Proofs.Basic
import Refsite.Proofs.Candidates
import Refsite.Proofs.CommandLine.Malformed
import Refsite.Proofs.Decimal.Rounding
import Refsite.Proofs.Decimal.Shortest
import Refsite.Proofs.Disk.Apart
import Refsite.Proofs.Disk.Blind
import Refsite.Proofs.Disk.Changes
import Refsite.Proofs.Disk.Follow
import Refsite.Proofs.Disk.Growth
import Refsite.Proofs.Disk.Laid
import Refsite.Proofs.Disk.Mirror
import Refsite.Proofs.Disk.Names
import Refsite.Proofs.Disk.Opened
import Refsite.Proofs.Disk.Runs
import Refsite.Proofs.Disk.Steady
import Refsite.Proofs.Disk.Steps
import Refsite.Proofs.Disk.Stops
import Refsite.Proofs.Disk.Tree
import Refsite.Proofs.Disk.Veil
import Refsite.Proofs.Html.Escape
import Refsite.Proofs.Html.Spans
import Refsite.Proofs.Json.Entries
import Refsite.Proofs.Json.Floats
import Refsite.Proofs.Json.Numbers
import Refsite.Proofs.Json.RoundTrip
import Refsite.Proofs.Json.Sorted
import Refsite.Proofs.Json.Tidy
import Refsite.Proofs.Link.Allocation
import Refsite.Proofs.Link.Anchor
import Refsite.Proofs.Link.Bindings
import Refsite.Proofs.Link.Frozen
import Refsite.Proofs.Link.History
import Refsite.Proofs.Link.Labels
import Refsite.Proofs.Link.Owner
import Refsite.Proofs.Link.References
import Refsite.Proofs.Link.Registry
import Refsite.Proofs.Link.Stem
import Refsite.Proofs.Run
import Refsite.Proofs.Schema.Passes
import Refsite.Proofs.Schema.Records
import Refsite.Proofs.Site.Addresses
import Refsite.Proofs.Site.Blindness
import Refsite.Proofs.Site.Confinement
import Refsite.Proofs.Site.Conformance
import Refsite.Proofs.Site.Decorate
import Refsite.Proofs.Site.Difference
import Refsite.Proofs.Site.Failures
import Refsite.Proofs.Site.Files
import Refsite.Proofs.Site.Ids
import Refsite.Proofs.Site.Listings
import Refsite.Proofs.Site.Loading
import Refsite.Proofs.Site.Mirroring
import Refsite.Proofs.Site.NewSite
import Refsite.Proofs.Site.OwnAddress
import Refsite.Proofs.Site.OwnPage
import Refsite.Proofs.Site.Publish
import Refsite.Proofs.Site.Reordering
import Refsite.Proofs.Site.Republishing
import Refsite.Proofs.Site.Serving
import Refsite.Proofs.Site.Sidebar
import Refsite.Proofs.Site.Snapshots
import Refsite.Proofs.Site.Stages
import Refsite.Proofs.Site.Steadiness
import Refsite.Proofs.Site.Superset
import Refsite.Proofs.Site.Targets
import Refsite.Proofs.Site.Validation
import Refsite.Proofs.Site.Verifying
import Refsite.Proofs.Site.Writing
import Refsite.Proofs.Source.Catalog
import Refsite.Proofs.Source.LineNumbers
import Refsite.Proofs.Source.Listing
import Refsite.Proofs.Source.ShortPaths
import Refsite.Proofs.Symbol.Ancestry
import Refsite.Proofs.Symbol.Anchors
import Refsite.Proofs.Symbol.Captions
import Refsite.Proofs.Symbol.Clean
import Refsite.Proofs.Symbol.Decor
import Refsite.Proofs.Symbol.Dump
import Refsite.Proofs.Symbol.Exports
import Refsite.Proofs.Symbol.Listeners
import Refsite.Proofs.Symbol.Order
import Refsite.Proofs.Symbol.Pipeline
import Refsite.Proofs.Symbol.Reading
import Refsite.Proofs.Symbol.Reread
import Refsite.Proofs.Symbol.Signature
import Refsite.Proofs.Symbol.Undeclared
import Refsite.Proofs.Text.Basic
import Refsite.Proofs.Text.Blank
import Refsite.Proofs.Text.LetterCase
import Refsite.Proofs.Text.Percent
import Refsite.Proofs.Text.Search
import Refsite.Proofs.Text.Split
import Refsite.Proofs.Text.Utf8
import Refsite.Proofs.Tree.Containment
import Refsite.Proofs.Tree.Graft
import Refsite.Proofs.Tree.Record
import Refsite.Proofs.Tutorial.Configurations
import Refsite.Proofs.Tutorial.Declarations
import Refsite.Proofs.Tutorial.Edges
import Refsite.Proofs.Tutorial.Forest
import Refsite.Proofs.Tutorial.Growth
import Refsite.Proofs.Tutorial.Loader
import Refsite.Proofs.Tutorial.Parents
import Refsite.Run
import Refsite.Schema.Checked
import Refsite.Schema.Field
import Refsite.Site.Addresses
import Refsite.Site.Basic
import Refsite.Site.Configuration
import Refsite.Site.Members
import Refsite.Site.Nav
import Refsite.Site.Publish
import Refsite.Site.Sections
import Refsite.Site.Settings
import Refsite.Site.Snapshot
import Refsite.Site.Validation
import Refsite.Site.Verify
import Refsite.Source.Catalog
import Refsite.Source.Listing
import Refsite.Symbol.Ancestry
import Refsite.Symbol.Anchors
import Refsite.Symbol.Basic
import Refsite.Symbol.Captions
import Refsite.Symbol.Exports
import Refsite.Symbol.Listeners
import Refsite.Symbol.Reader
import Refsite.Symbol.Record
import Refsite.Symbol.Signature
import Refsite.Symbol.Visibility
import Refsite.Text.Basic
import Refsite.Text.CharSet
import Refsite.Text.Digit
import Refsite.Text.Encoding
import Refsite.Text.Glob
import Refsite.Text.Lower
import Refsite.Text.Percent
import Refsite.Text.Printable
import Refsite.Text.Quoted
import Refsite.Text.Utf8
import Refsite.Text.Word
import Refsite.Toml.Number
import Refsite.Toml.Parser
import Refsite.Toml.Quoted
import Refsite.Toml.Table
import Refsite.Tree.Basic
import Refsite.Tree.Check
import Refsite.Tree.Graft
import Refsite.Tree.Record
import Refsite.Tutorial.Basic
import Refsite.Tutorial.Loader
import Refsite.Tutorial.Plan
