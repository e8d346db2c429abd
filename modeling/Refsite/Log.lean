namespace Refsite

inductive Level where
  | debug
  | info
  | warning
  | error
  deriving DecidableEq, Repr

namespace Level

def word : Level → String
  | debug => "DEBUG"
  | info => "INFO"
  | warning => "WARNING"
  | error => "ERROR"

/-- Warnings and errors are shown in any case. -/
def isSerious : Level → Bool
  | warning | error => true
  | debug | info => false

end Level

structure Remark where
  level : Level
  part : String
  text : String
  deriving DecidableEq, Repr

def Remark.line (r : Remark) : String := r.level.word ++ " " ++ r.part ++ ": " ++ r.text

end Refsite
