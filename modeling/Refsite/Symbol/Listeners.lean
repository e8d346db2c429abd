import Refsite.Symbol.Basic
namespace Refsite.Symbol

def isEvent (s : Symbol) : Bool := s.kind == .event

def addNew (items : List String) (item : String) : List String :=
  if items.contains item then items else items ++ [item]

def listenersOf (event : String) (symbols : List Symbol) : List String :=
  (symbols.filter (·.listens.contains event)).map longname

def addListeners (longnames : List String) (s : Symbol) : Symbol :=
  match s.detail with
  | .event call listeners => { s with detail := .event call (longnames.foldl addNew listeners) }
  | _ => s

/-- Gives the first event of each longname its listeners among `all`; `seen` holds the longnames of
the events before. -/
def linkListenersFrom (all : List Symbol) : (seen : List String) → List Symbol → List Symbol
  | _, [] => []
  | seen, s :: symbols =>
    if s.isEvent && !seen.contains s.longname then
      s.addListeners (listenersOf s.longname all) ::
        linkListenersFrom all (s.longname :: seen) symbols
    else s :: linkListenersFrom all seen symbols

def linkListeners (symbols : List Symbol) : List Symbol := linkListenersFrom symbols [] symbols

def unknownEvents (symbols : List Symbol) : List (String × String) :=
  let events := (symbols.filter isEvent).map longname
  symbols.flatMap fun s =>
    (s.listens.filter fun event => !events.contains event).map fun event => (s.longname, event)

end Refsite.Symbol
