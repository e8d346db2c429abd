import Refsite.Symbol.Basic
namespace Refsite

structure Sections where
  links : List (String × List Symbol)
  entries : List (String × List Symbol)
  deriving Repr

namespace Sections

def linkKinds : List (Kind × String) :=
  [(.classType, "Classes"), (.interface, "Interfaces"), (.mixin, "Mixins"),
   (.nameSpace, "Namespaces")]

def entryKinds : List (Kind × String) :=
  [(.member, "Members"), (.function, "Methods"), (.typedef, "Type Definitions"),
   (.event, "Events")]

/-- The symbols of some kinds under the headings of these; no heading stands above nothing. -/
def group (kinds : List (Kind × String)) (symbols : List Symbol) : List (String × List Symbol) :=
  (kinds.map fun (kind, heading) => (heading, symbols.filter (·.kind == kind))).filter
    fun (_, items) => !items.isEmpty

def ofSymbols (symbols : List Symbol) : Sections where
  links := group linkKinds symbols
  entries := group entryKinds symbols

end Sections

end Refsite
