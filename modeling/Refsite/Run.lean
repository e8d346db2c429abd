import Refsite.Failure
namespace Refsite

structure World where
  disk : Disk
  remarks : List Remark := []
  printed : String := ""
  chance : Nat := 0
  deriving Repr

abbrev Run := ExceptT Failure (StateM World)

namespace Run

def fail {α : Type} (f : Failure) : Run α := throw f

def disk : Run Disk := return (← get).disk

def setDisk (d : Disk) : Run Unit := modify fun w => { w with disk := d }

def remark (r : Remark) : Run Unit := modify fun w => { w with remarks := w.remarks ++ [r] }

def remarkAll (rs : List Remark) : Run Unit := modify fun w => { w with remarks := w.remarks ++ rs }

def print (s : String) : Run Unit := modify fun w => { w with printed := w.printed ++ s }

/-- A result whose error is a failure of the run. -/
def ofExcept {ε α : Type} (failure : ε → Failure) : Except ε α → Run α
  | .ok a => pure a
  | .error e => fail (failure e)

def change (f : Disk → Except DiskError Disk) : Run Unit := do
  setDisk (← ofExcept .disk (f (← disk)))

def look (p : Path) : Run (Option DiskEntry) := do ofExcept .disk ((← disk).look p)

def isFile (p : Path) : Run Bool := return (← look p).any DiskEntry.isFile

def isDirectory (p : Path) : Run Bool := return (← look p) == some .directory

def makeDirectories (p : Path) : Run Unit := change fun d => d.makeDirectories p

def write (p : Path) (bytes : List UInt8) : Run Unit := do
  makeDirectories p.parent
  change fun d => d.write p bytes

def writeText (p : Path) (text : String) : Run Unit := write p (Text.Utf8.encode text.toList)

/-- Copies a file, with all directories above the copy. -/
def copy (source target : Path) : Run Unit := do
  makeDirectories target.parent
  change fun d => d.copy source target

/-- The text of a file in some encoding, with line feeds for all line ends. -/
def readText [Text.Codecs] (p : Path) (encoding : String) : Run String := do
  if encoding.toList.contains '\x00' then fail .encodingName
  let bytes ← ofExcept .disk ((← disk).read p)
  match Text.Encoding.ofName? encoding with
  | none => fail .unknownEncoding
  | some encoding =>
    let text ← ofExcept .decode (encoding.decode bytes)
    return String.ofList (Text.unixLines text)

/-- What a run comes to on a world, and the world afterwards. -/
def start {α : Type} (r : Run α) (w : World) : Except Failure α × World := r.run.run w

end Run

end Refsite
