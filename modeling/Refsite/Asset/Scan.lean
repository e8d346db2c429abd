import Refsite.Asset.Ignore
import Refsite.Disk.Basic
import Refsite.Text.Glob
namespace Refsite.Asset

def textOf (names : List String) : String := "/".intercalate names

def isWithin (d : Disk) (directory : Path) (names : List String) : Bool :=
  (d.resolve directory).isBelow (d.resolve (directory.below names))

def isExcluded (patterns : List String) (names : List String) : Bool :=
  patterns.any fun pattern =>
    Text.fitsPattern pattern (textOf names) || Text.fitsPattern pattern (names.getLast?.getD "")

def isIgnored (ignore : Option Ignore) (file : Path) : Except IgnoreError Bool :=
  match ignore with
  | none => .ok false
  | some rules => rules.ignores file

def keep (d : Disk) (directory : Path) (patterns : List String) (ignore : Option Ignore) :
    List (List String × DiskEntry) → Except IgnoreError (List (List String))
  | [] => .ok []
  | (names, entry) :: rest =>
    if entry.isFile && isWithin d directory names then do
      let ignored ← isIgnored ignore (directory.below names)
      let kept ← keep d directory patterns ignore rest
      return if ignored || isExcluded patterns names then kept else names :: kept
    else keep d directory patterns ignore rest

/-- The files of a directory that are to be copied, ordered by their paths. -/
def scan (d : Disk) (directory : Path) (patterns : List String) (ignore : Option Ignore) :
    Except IgnoreError (List (List String)) :=
  (keep d directory patterns ignore (d.scan directory)).map fun files =>
    files.mergeSort fun a b => Text.le (textOf a) (textOf b)

end Refsite.Asset
