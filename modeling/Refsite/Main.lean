import Refsite.CommandLine.Reach
import Refsite.Plain
namespace Refsite.Main

open CommandLine
open scoped Plain

/-- The part of the file system that was taken in. -/
structure Taken where
  disk : Disk
  full : List Place

def textOf (place : Place) : String := Path.text ⟨false, place⟩

/-- What stands in a directory by a name. A link is taken with all links behind it followed. -/
def look (here : Place) (name : String) : IO (Option DiskEntry) := do
  let entry : IO.FS.DirEntry := ⟨textOf here, name⟩
  try
    match (← entry.path.symlinkMetadata).type with
    | .dir => return some .directory
    | .file => return some (.file (← IO.FS.readBinFile entry.path).toList)
    | .symlink => return some (.link (← IO.FS.realPath entry.path).toString)
    | .other => return none
  catch _ => return none

def namesIn (here : Place) : IO (List String) := do
  let entry : IO.FS.DirEntry := ⟨textOf here, ""⟩
  try
    return (← entry.path.readDir).toList.map (·.fileName)
  catch _ => return []

mutual

partial def follow (here : Place) (names : List String) (t : Taken) : IO Taken := do
  match names with
  | [] => takeContents here t
  | name :: rest =>
    if name == Path.up then follow here.dropLast rest t
    else
      let place := here ++ [name]
      match ← look here name with
      | none => return t
      | some entry =>
        let t := { t with disk := t.disk.put place entry }
        match entry with
        | .link target => follow [] (Path.namesOf target ++ rest) t
        | .directory | .file _ => follow place rest t

partial def takeContents (here : Place) (t : Taken) : IO Taken := do
  if t.full.contains here then return t
  let names ← namesIn here
  names.foldlM (fun t name => follow here [name] t) { t with full := here :: t.full }

end

def takeAll (t : Taken) (paths : List Path) : IO Taken :=
  paths.foldlM (fun t path => follow [] path.names t) t

def writeBack (before after : Disk) : IO Unit :=
  after.entries.forM fun (place, entry) => do
    if before.entry? place == some entry then return
    match entry with
    | .directory => IO.FS.createDirAll (textOf place)
    | .file bytes => IO.FS.writeBinFile (textOf place) ⟨bytes.toArray⟩
    | .link _ => return

def withTemporary (d : Disk) : Disk := (d.makeDirectories (.ofText "/tmp")).toOption.getD d

def perform (directory : Path) (i : Invocation) : IO UInt32 := do
  let taken ← takeAll ⟨.empty, [[]]⟩ (i.paths directory)
  let (further, _) := (i.furtherPaths directory).start { disk := taken.disk }
  let taken ← takeAll taken (further.toOption.getD [])
  let taken := { taken with disk := withTemporary taken.disk }
  let chance ← IO.rand 0 1000000000000000000
  let (result, world) := (execute directory i).start { disk := taken.disk, chance }
  writeBack taken.disk world.disk
  IO.print world.printed
  (remarkLines i.verbose world.remarks).forM IO.eprintln
  match result with
  | .ok ending =>
    ending.lines.forM IO.eprintln
    return UInt32.ofNat ending.code
  | .error failure =>
    IO.eprintln failure.message
    return 1

end Refsite.Main

def main (args : List String) : IO UInt32 := do
  match Refsite.CommandLine.Invocation.ofArguments args with
  | .ok invocation =>
    Refsite.Main.perform (.ofText (← IO.currentDir).toString) invocation
  | .error .help =>
    IO.println Refsite.CommandLine.Usage.line
    return 0
  | .error .wrong =>
    IO.eprintln Refsite.CommandLine.Usage.line
    return 2
