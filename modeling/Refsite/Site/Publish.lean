import Refsite.Asset.Copy
import Refsite.Doclet.Dump
import Refsite.Host
import Refsite.Site.Configuration
import Refsite.Site.Snapshot
import Refsite.Tutorial.Loader
namespace Refsite

/-- What a run that writes files has done. -/
structure Summary where
  symbols : Nat
  pages : Nat
  tutorials : Nat
  statics : Nat
  /-- The listings written and the files that could not be read, if sources are listed at all. -/
  sources : Option (Nat × Nat)
  artifacts : List Path
  deriving Repr

inductive Published where
  | printed (symbols : Nat)
  | written (summary : Summary)
  deriving Repr

namespace Site

variable [Host]

def part : String := "artifacts.write"

def jsonText (x : Except Misfit Json) : Run String :=
  Run.ofExcept .misfit (x.bind Json.print)

def writeSnapshots (s : Site) (raw : List Doclet) (out : Path) : List Snapshot → Run (List Path)
  | [] => return []
  | snapshot :: rest => do
    let directory := out.child Snapshot.directory
    Run.makeDirectories directory
    let file := directory.child snapshot.fileName
    Run.writeText file (← jsonText (s.snapshot raw snapshot))
    return file :: (← writeSnapshots s raw out rest)

def writeSheets (s : Site) (t : Page.Theme) (nav : String) (out : Path) :
    List Page.Sheet → Run (List Path)
  | [] => return []
  | sheet :: sheets => do
    let markup ← sheet.draw t nav
    let file := out.child sheet.file
    Run.writeText file (s.registry.resolveTags markup)
    return file :: (← writeSheets s t nav out sheets)

def writeStatic (root out : Path) (t : Page.Theme) (files : StaticFiles) : Run (List Path) := do
  let ofTheme ← match t.base with
    | some directory => Asset.copyTheme (directory.child "static") out
    | none => do
      let file := out.below [Page.styleDirectory, Page.styleName]
      Run.writeText file Page.style
      pure [file]
  return ofTheme ++ (← Asset.copyStatic root out files)

def readSource (root : Path) (encoding : String) (f : Source.File) : Run (Option String) := do
  let file := root.join f.path
  let unreadable : Run (Option String) := do
    Run.remark ⟨.error, "artifacts.generators.sources",
      "Error while generating source file " ++ file.text⟩
    return none
  match (Run.readText file encoding).start { disk := ← Run.disk } with
  | (.ok code, _) => return some code
  | (.error (.disk e), _) =>
    if e.obstacle == .nullCharacter then Run.fail (.disk e) else unreadable
  | (.error (.decode .malformed), _) => unreadable
  | (.error failure, _) => Run.fail failure

/-- Writes the listings of source files, and answers with them and the number of files that could
not be read. -/
def writeListings (s : Site) (root out : Path) (t : Page.Theme) (nav encoding : String) :
    Source.Catalog → Run (List Path × Nat)
  | [] => return ([], 0)
  | f :: files => do
    match s.registry.resolve? f.title with
    | none => writeListings s root out t nav encoding files
    | some url =>
      match ← readSource root encoding f with
      | none =>
        let (written, skipped) ← writeListings s root out t nav encoding files
        return (written, skipped + 1)
      | some code =>
        let sheet := s.sourceSheet f url code
        let markup ← sheet.draw t nav
        let file := out.child sheet.file
        Run.writeText file markup
        let (written, skipped) ← writeListings s root out t nav encoding files
        return (file :: written, skipped)

def writeSources (s : Site) (root out : Path) (t : Page.Theme) (nav encoding : String) :
    Run (List Path × Nat) := do
  let result ← writeListings s root out t nav encoding s.sources
  Run.writeText (out.below [Page.styleDirectory, Page.listingStyleName]) Source.Highlighter.style
  return result

def countRemark (what : String) (files : List Path) : Remark :=
  ⟨.debug, part, what ++ s!" generator wrote {files.length} files"⟩

def write (s : Site) (raw : List Doclet) (settings : Settings) (root out : Path) :
    Run Summary := do
  let snapshots ← writeSnapshots s raw out Snapshot.all
  let theme := Page.Theme.ofPaths (Settings.pathBelow root settings.template)
    (Settings.pathBelow root settings.pages.layoutFile)
  let nav := Nav.markup s.nav
  let pages ← writeSheets s theme nav out s.symbolSheets
  Run.remark ⟨.debug, "artifacts.generators.pages", s!"wrote {pages.length} pages"⟩
  Run.remark (countRemark "pages" pages)
  let tutorials ← writeSheets s theme nav out s.tutorialSheets
  Run.remark (countRemark "tutorials" tutorials)
  let statics ← writeStatic root out theme settings.pages.staticFiles
  Run.remark (countRemark "static" statics)
  let summary : Summary :=
    { symbols := s.symbols.length
      pages := pages.length
      tutorials := tutorials.length
      statics := statics.length
      sources := none
      artifacts := snapshots ++ pages ++ tutorials ++ statics }
  if settings.pages.sourcePages then
    let (listings, skipped) ← writeSources s root out theme nav settings.encoding
    Run.remark (countRemark "sources" listings)
    return { summary with
      sources := some (listings.length, skipped)
      artifacts := summary.artifacts ++ listings }
  else return summary

def failure : SiteError → Failure
  | .link e => .link e
  | .misfit m => .misfit m

def load (root input : Path) (settings : Settings) (tutorials : Option Path) (raw : List Doclet) :
    Run Site := do
  let symbols ← Doclet.loadSymbols raw
  Run.remark ⟨.info, part, s!"loaded {symbols.length} symbols from " ++ input.text⟩
  Run.remarkAll (selectRemarks settings.visibility symbols)
  let (sources, symbols) := select settings.visibility symbols
  let tutorials ← match tutorials.or (Settings.pathBelow root settings.tutorials) with
    | some directory => Tutorial.load directory settings.encoding
    | none => pure []
  let site ← Run.ofExcept failure (ofSymbols settings sources tutorials symbols)
  Run.remarkAll site.treeRemarks
  return site

/-- Publishes a dump. Settings that are not given are those of the project; an output directory that
is not given is the one that the settings name, or the symbols are printed if they say so. -/
def publish (root input : Path) (out : Option Path) (settings : Option Settings)
    (tutorials : Option Path) : Run Published := do
  let settings ← match settings with
    | some settings => pure settings
    | none => Settings.load root
  let raw ← Doclet.load input
  let site ← load root input settings tutorials raw
  match out, settings.toConsole with
  | none, true =>
    Run.print ((← jsonText site.docs) ++ "\n")
    return .printed site.symbols.length
  | none, false =>
    let out ← Settings.destinationOf root settings.destination
    return .written (← site.write raw settings root out)
  | some out, _ => return .written (← site.write raw settings root out)

end Site

end Refsite
