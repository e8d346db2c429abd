import Refsite.Json.Printer
import Refsite.Site.Basic
namespace Refsite

inductive Snapshot where
  | docsRaw
  | docs
  | members
  | nav
  | tree
  deriving DecidableEq, Repr

namespace Snapshot

def directory : String := "dist"

def all : List Snapshot := [docsRaw, docs, members, nav, tree]

def name : Snapshot → String
  | docsRaw => "docs_raw"
  | docs => "docs"
  | members => "members"
  | nav => "nav"
  | tree => "tree"

def fileName (s : Snapshot) : String := s.name ++ ".json"

end Snapshot

/-- The published symbols as a list of records. -/
def Site.docs [Serializer] (s : Site) : Except Misfit Json := (Symbol.dump s.symbols).map Json.array

def Site.snapshot [Serializer] (s : Site) (raw : List Doclet) : Snapshot → Except Misfit Json
  | .docsRaw => .ok (.array (raw.map Json.object))
  | .docs => s.docs
  | .members => s.members.dump
  | .nav => .ok (.array (NavNode.records s.nav))
  | .tree => Tree.dump s.tree

end Refsite
