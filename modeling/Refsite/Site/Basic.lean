import Refsite.Doclet
import Refsite.Link.Inline
import Refsite.Site.Addresses
import Refsite.Site.Nav
import Refsite.Site.Settings
import Refsite.Symbol.Anchors
import Refsite.Symbol.Ancestry
import Refsite.Symbol.Captions
import Refsite.Symbol.Exports
import Refsite.Symbol.Listeners
import Refsite.Symbol.Signature
import Refsite.Text.Quoted
import Refsite.Tree.Graft
import Refsite.Tree.Record
namespace Refsite

structure Site where
  symbols : List Symbol
  sources : Source.Catalog
  tutorials : List Tutorial
  registry : Registry
  members : Members
  nav : List NavNode
  tree : List Tree.Node
  deriving Repr

inductive SiteError where
  | link (e : LinkError)
  | misfit (m : Misfit)
  deriving DecidableEq, Repr

namespace Site

def select (v : Visibility) (symbols : List Symbol) : Source.Catalog × List Symbol :=
  Source.catalog (Symbol.splitCaptions (Symbol.linkListeners (Symbol.prune v symbols)))

def selectRemarks (v : Visibility) (symbols : List Symbol) : List Remark :=
  let kept := Symbol.prune v symbols
  ⟨.debug, "rules.prune",
      s!"pruned {symbols.length - kept.length} of {symbols.length} symbols"⟩ ::
    (Symbol.unknownEvents kept).map fun (listener, event) =>
      ⟨.debug, "transform.listeners", listener ++ " listens to unknown event " ++ event⟩

/-- Gives the symbols what depends on addresses: links to places on their own pages, ids, signatures
and breadcrumbs. -/
def decorate (r : Registry) (symbols : List Symbol) : Except SiteError (List Symbol) := do
  let symbols ← (symbols.mapM (Symbol.linkPlaces r)).mapError .link
  let symbols ← (symbols.mapM (Symbol.assignId r)).mapError .link
  let symbols ← (symbols.mapM (Symbol.sign r)).mapError .misfit
  return Symbol.addAncestors r symbols

/-- The symbols as pages show them: constants as members, modules with their exports, externals with
plain names. -/
def settle (symbols : List Symbol) : List Symbol :=
  (Symbol.attachAllExports (symbols.map Symbol.asMember)).map Symbol.withPlainName

def ofSymbols (settings : Settings) (sources : Source.Catalog) (tutorials : List Tutorial)
    (symbols : List Symbol) : Except SiteError Site := do
  let listed := if settings.pages.sourcePages then sources else []
  let registry ← (Registry.populate symbols listed tutorials).mapError .link
  let symbols := settle (← decorate registry symbols)
  let members := Members.collect symbols tutorials
  return {
    symbols, sources, tutorials, registry, members
    nav := Nav.build members registry settings.pages.longnamesInNav
    tree := Tree.graft symbols }

def treeRemarks (s : Site) : List Remark :=
  (Tree.unknownParents s.symbols).map fun (parent, count) =>
    ⟨.debug, "graph.graft", s!"dropping {count} symbols with unknown parent " ++ quoted parent⟩

end Site

end Refsite
