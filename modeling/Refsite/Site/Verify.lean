import Refsite.Site.Publish
namespace Refsite

/-- How two directories differ: the files that only the first has, those that only the second has,
and those whose bytes differ. -/
structure Difference where
  missing : List String
  extra : List String
  mismatches : List String
  deriving DecidableEq, Repr

def Difference.isNone (d : Difference) : Bool :=
  d.missing.isEmpty && d.extra.isEmpty && d.mismatches.isEmpty

namespace Disk

def filesBelow (d : Disk) (p : Path) : List (List String) :=
  ((d.scan p).map (·.1)).filter fun names => d.isFile (p.below names)

def sortedTexts (files : List (List String)) : List String :=
  (files.map Asset.textOf).mergeSort Text.le

def difference (d : Disk) (p q : Path) : Difference :=
  let ours := d.filesBelow p
  let theirs := d.filesBelow q
  let differs (names : List String) :=
    (d.read (p.below names)).toOption != (d.read (q.below names)).toOption
  { missing := sortedTexts (ours.filter fun names => !theirs.contains names)
    extra := sortedTexts (theirs.filter fun names => !ours.contains names)
    mismatches := sortedTexts (ours.filter fun names => theirs.contains names && differs names) }

end Disk

namespace Site

/-- How a published directory differs from what is published now, to a directory that is gone
afterwards. -/
def verify [Host] (root input directory : Path) : Run Difference := do
  match ← Run.look directory with
  | none => Run.fail (.noOutput directory)
  | some entry => if entry != .directory then Run.fail (.outputNotDirectory directory)
  let before ← get
  let scratch := Scratch.path before.chance before.disk
  Run.change fun d => d.makeDirectory scratch
  let (result, after) := (publish root input (some scratch) none none).start (← get)
  set { after with disk := before.disk }
  let _ ← Run.ofExcept id result
  return after.disk.difference directory scratch

end Site

end Refsite
