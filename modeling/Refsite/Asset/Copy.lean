import Refsite.Asset.Scan
import Refsite.Run
import Refsite.Site.Settings
namespace Refsite.Asset

def ignoreName : String := ".gitignore"

def ignoreRules [Text.Codecs] (root : Path) : Run (Option Ignore) := do
  let file := root.child ignoreName
  if ← Run.isFile file then
    let text ← Run.readText file "utf-8"
    return some (← Run.ofExcept .ignore (Ignore.read root text.toList))
  else return none

/-- The files of a directory that are to be copied, none where there is no directory. -/
def files (directory : Path) (excluded : List String) (ignore : Option Ignore) :
    Run (List (List String)) := do
  if ← Run.isDirectory directory then
    Run.ofExcept .ignore (scan (← Run.disk) directory excluded ignore)
  else return []

/-- Copies files of a directory to the same places below another, and answers with the copies. -/
def copyAll (source target : Path) : List (List String) → Run (List Path)
  | [] => return []
  | names :: files => do
    Run.copy (source.below names) (target.below names)
    return target.below names :: (← copyAll source target files)

def copyIncluded (root out : Path) (excluded : List String) (ignore : Option Ignore)
    (included : String) : Run (List Path) := do
  let source := root.join included
  if ← Run.isFile source then
    if excluded.any fun pattern => Text.fitsPattern pattern source.name then return []
    else
      Run.copy source (out.child source.name)
      return [out.child source.name]
  else if ← Run.isDirectory source then
    copyAll source out (← files source excluded ignore)
  else
    Run.remark ⟨.warning, "artifacts.generators.static",
      "static file path " ++ source.text ++ " does not exist"⟩
    return []

def copyAllIncluded (root out : Path) (excluded : List String) (ignore : Option Ignore) :
    List String → Run (List Path)
  | [] => return []
  | included :: rest => do
    let copied ← copyIncluded root out excluded ignore included
    return copied ++ (← copyAllIncluded root out excluded ignore rest)

def copyStatic [Text.Codecs] (root out : Path) (files : StaticFiles) : Run (List Path) := do
  let ignore ← ignoreRules root
  copyAllIncluded root out files.excluded ignore files.included

def copyTheme (directory out : Path) : Run (List Path) := do
  copyAll directory out (← files directory [] none)

end Refsite.Asset
