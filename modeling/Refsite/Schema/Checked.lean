namespace Refsite.Schema

inductive Cause where
  | notText
  | notFlag
  | unreadableFlag
  | notInteger
  | unreadableInteger
  | tooLargeInteger
  | fractional
  | notList
  | notRecord
  | notAChoice
  | missing
  | unexpected
  | refused
  | notTagged
  | untagged
  | unknownTag
  deriving DecidableEq, Repr

/-- A cause, and the path of entry names and positions that leads to it. -/
structure Fault where
  place : List String
  cause : Cause
  deriving DecidableEq, Repr

def Fault.inside (step : String) (f : Fault) : Fault := { f with place := step :: f.place }

/-- A value that passed, or the faults that were met. -/
inductive Checked (α : Type) where
  | ok (value : α)
  | bad (faults : List Fault)
  deriving DecidableEq, Repr

namespace Checked

variable {α β : Type}

def fail (cause : Cause) : Checked α := bad [⟨[], cause⟩]

def map (f : α → β) : Checked α → Checked β
  | ok a => ok (f a)
  | bad faults => bad faults

def both (f : Checked (α → β)) (x : Unit → Checked α) : Checked β :=
  match f, x () with
  | ok f, ok a => ok (f a)
  | ok _, bad faults => bad faults
  | bad faults, ok _ => bad faults
  | bad faults, bad more => bad (faults ++ more)

instance : Applicative Checked where
  pure := ok
  map := map
  seq := both

def inside (step : String) : Checked α → Checked α
  | ok a => ok a
  | bad faults => bad (faults.map (Fault.inside step))

def value? : Checked α → Option α
  | ok a => some a
  | bad _ => none

def faults : Checked α → List Fault
  | ok _ => []
  | bad faults => faults

end Checked

end Refsite.Schema
