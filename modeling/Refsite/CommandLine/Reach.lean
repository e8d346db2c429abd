import Refsite.CommandLine.Execute
namespace Refsite

/-- The paths that the settings of a project name. The directory of the layout is searched for other
templates too. -/
def Settings.paths (s : Settings) (root : Path) : List Path :=
  (s.destination :: s.pages.staticFiles.included).map root.join ++
    ([s.template, s.tutorials].filterMap (pathBelow root) ++
      ((pathBelow root s.pages.layoutFile).map Path.parent).toList)

namespace CommandLine

def Command.paths (directory : Path) : Command → List Path
  | .publish input outDir tutorials _ =>
    (input :: (outDir.toList ++ tutorials.toList)).map directory.join
  | .validate given => given.toList.map directory.join
  | .verify input given => (input :: given.toList).map directory.join

def Invocation.paths (directory : Path) (i : Invocation) : List Path :=
  let root := directory.join i.root
  root.child Settings.fileName :: root.child Asset.ignoreName :: i.command.paths directory

def Command.sources (directory : Path) : Command → Run (List String)
  | .publish input _ _ _ | .verify input _ => do
    let symbols ← Doclet.loadSymbols (← Doclet.load (← located directory input))
    return (Source.Catalog.collect symbols).paths
  | .validate _ => return []

def Invocation.furtherPaths (directory : Path) (i : Invocation) : Run (List Path) := do
  let root ← located directory i.root
  let settings ← tryCatch (Settings.load root) fun _ => return .standard
  let sources ← tryCatch (i.command.sources directory) fun _ => return []
  return settings.paths root ++ sources.map root.join

end CommandLine

end Refsite
