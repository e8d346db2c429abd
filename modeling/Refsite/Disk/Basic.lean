import Refsite.Disk.Path
import Refsite.Text.Quoted
import Refsite.Text.Utf8
namespace Refsite

/-- What is in the way of an operation. -/
inductive Obstacle where
  | notFound
  | notDirectory
  | isDirectory
  | alreadyThere
  | nameTooLong
  | tooManyLinks
  | nullCharacter
  | sameFile
  deriving DecidableEq, Repr

namespace Obstacle

def number : Obstacle → Nat
  | notFound => 2
  | alreadyThere => 17
  | notDirectory => 20
  | isDirectory => 21
  | nameTooLong => 36
  | tooManyLinks => 40
  | nullCharacter | sameFile => 0

def wording : Obstacle → String
  | notFound => "No such file or directory"
  | alreadyThere => "File exists"
  | notDirectory => "Not a directory"
  | isDirectory => "Is a directory"
  | nameTooLong => "File name too long"
  | tooManyLinks => "Too many levels of symbolic links"
  | nullCharacter => "embedded null byte"
  | sameFile => "same file"

end Obstacle

structure DiskError where
  obstacle : Obstacle
  path : Path
  deriving DecidableEq, Repr

def DiskError.message (e : DiskError) : String :=
  s!"[Errno {e.obstacle.number}] {e.obstacle.wording}: {quoted e.path.text}"

abbrev Place := List String

inductive DiskEntry where
  | file (bytes : List UInt8)
  | directory
  | link (target : String)
  deriving DecidableEq, Repr

def DiskEntry.isFile : DiskEntry → Bool
  | file _ => true
  | _ => false

/-- The entries of a disk, each at its place. The top is a directory without an entry. -/
structure Disk where
  entries : List (Place × DiskEntry)
  deriving DecidableEq, Repr

namespace Disk

def empty : Disk := ⟨[]⟩

def entry? (d : Disk) (place : Place) : Option DiskEntry :=
  if place.isEmpty then some .directory else d.entries.lookup place

/-- Puts something at a place, instead of what stood there. -/
def put (d : Disk) (place : Place) (entry : DiskEntry) : Disk :=
  ⟨d.entries.filter (fun e => e.1 != place) ++ [(place, entry)]⟩

def remove (d : Disk) (place : Place) : Disk :=
  ⟨d.entries.filter fun e => !place.isPrefixOf e.1⟩

def namesIn (d : Disk) (place : Place) : List String :=
  d.entries.filterMap fun e =>
    if e.1.dropLast == place then e.1.getLast? else none

def linkLimit : Nat := 40

def linkStart (here : Place) (target : String) : Place :=
  if Path.isAbsoluteText target then [] else here

/-- Follows names from a place. What is not there is taken as it is written. -/
def follow (d : Disk) : (links : Nat) → (here : Place) → List String → Place
  | _, here, [] => here
  | links, here, name :: rest =>
    if name == Path.up then follow d links here.dropLast rest
    else
      match links, d.entry? (here ++ [name]) with
      | links + 1, some (.link target) =>
        follow d links (linkStart here target) (Path.namesOf target ++ rest)
      | links, _ => follow d links (here ++ [name]) rest
termination_by links _ rest => (links, rest.length)

def resolve (d : Disk) (p : Path) : Path := ⟨false, d.follow linkLimit [] p.names⟩

def isLongName (name : String) : Bool := (Text.Utf8.encode name.toList).length > 255

/-- Follows names from a place through directories. All but the last have to be there; a link that
stands last is followed if `through` says so. -/
def walk (d : Disk) (through : Bool) : (links : Nat) → (here : Place) → List String →
    Except Obstacle Place
  | _, here, [] => .ok here
  | links, here, name :: rest =>
    match d.entry? here with
    | none => .error .notFound
    | some (.file _) | some (.link _) => .error .notDirectory
    | some .directory =>
      if name == Path.up then walk d through links here.dropLast rest
      else if isLongName name then .error .nameTooLong
      else
        match d.entry? (here ++ [name]) with
        | some (.link target) =>
          if rest.isEmpty && !through then .ok (here ++ [name])
          else
            match links with
            | 0 => .error .tooManyLinks
            | links + 1 =>
              walk d through links (linkStart here target) (Path.namesOf target ++ rest)
        | _ => walk d through links (here ++ [name]) rest
termination_by links _ rest => (links, rest.length)

def hasNull (p : Path) : Bool := p.names.any fun name => name.toList.contains '\x00'

def pathLimit : Nat := 4095

def reach (d : Disk) (through : Bool) (p : Path) : Except Obstacle Place :=
  if hasNull p then .error .nullCharacter
  else if pathLimit < (Text.Utf8.encode p.text.toList).length then .error .nameTooLong
  else d.walk through linkLimit [] p.names

def locate (d : Disk) (p : Path) : Except Obstacle Place := d.reach true p

def find? (d : Disk) (p : Path) : Option DiskEntry :=
  match d.locate p with
  | .ok place => d.entry? place
  | .error _ => none

def isFile (d : Disk) (p : Path) : Bool := (d.find? p).any DiskEntry.isFile

def isDirectory (d : Disk) (p : Path) : Bool := d.find? p == some .directory

def has (d : Disk) (p : Path) : Bool := (d.find? p).isSome

def fail {α : Type} (obstacle : Obstacle) (p : Path) : Except DiskError α := .error ⟨obstacle, p⟩

def look (d : Disk) (p : Path) : Except DiskError (Option DiskEntry) :=
  match d.locate p with
  | .ok place => .ok (d.entry? place)
  | .error .nameTooLong => fail .nameTooLong p
  | .error _ => .ok none

def read (d : Disk) (p : Path) : Except DiskError (List UInt8) :=
  match d.locate p with
  | .error obstacle => fail obstacle p
  | .ok place =>
    match d.entry? place with
    | some (.file bytes) => .ok bytes
    | some .directory => fail .isDirectory p
    | some (.link _) | none => fail .notFound p

def write (d : Disk) (p : Path) (bytes : List UInt8) : Except DiskError Disk :=
  match d.locate p with
  | .error obstacle => fail obstacle p
  | .ok place =>
    match d.entry? place with
    | some .directory => fail .isDirectory p
    | _ => .ok (d.put place (.file bytes))

def list (d : Disk) (p : Path) : Except DiskError (List String) :=
  match d.locate p with
  | .error obstacle => fail obstacle p
  | .ok place =>
    match d.entry? place with
    | some .directory => .ok (d.namesIn place)
    | some _ => fail .notDirectory p
    | none => fail .notFound p

def makeDirectory (d : Disk) (p : Path) : Except DiskError Disk :=
  match d.reach false p with
  | .error obstacle => fail obstacle p
  | .ok place =>
    match d.entry? place with
    | none => .ok (d.put place .directory)
    | some _ => if d.isDirectory p then .ok d else fail .alreadyThere p

/-- Makes a directory with all that is missing above it; `above` counts the names that may be
missing. -/
def makeDirectoriesFrom (d : Disk) : (above : Nat) → Path → Except DiskError Disk
  | 0, p => d.makeDirectory p
  | above + 1, p =>
    match d.makeDirectory p with
    | .error e =>
      if e.obstacle == .notFound then
        match makeDirectoriesFrom d above p.parent with
        | .ok d => d.makeDirectory p
        | .error e => .error e
      else .error e
    | .ok d => .ok d

def makeDirectories (d : Disk) (p : Path) : Except DiskError Disk :=
  d.makeDirectoriesFrom p.names.length p

def isSame (d : Disk) (p q : Path) : Bool :=
  match d.locate p, d.locate q with
  | .ok a, .ok b => a == b && (d.entry? a).isSome
  | _, _ => false

def copy (d : Disk) (source target : Path) : Except DiskError Disk :=
  if d.isSame source target then fail .sameFile source
  else do
    let bytes ← d.read source
    d.write target bytes

/-- The places below a directory that are reached without following a link, as names below it. -/
def placesBelow (d : Disk) (place : Place) : List (List String × DiskEntry) :=
  d.entries.filterMap fun e =>
    if place.isPrefixOf e.1 && e.1 != place then some (e.1.drop place.length, e.2) else none

/-- All that stands in a directory and the directories in it; nothing where there is none. -/
def scan (d : Disk) (p : Path) : List (List String × DiskEntry) :=
  match d.locate p with
  | .ok place => if d.entry? place == some .directory then d.placesBelow place else []
  | .error _ => []

end Disk

end Refsite
