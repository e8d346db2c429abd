import Refsite.Page.Sheet

namespace Refsite

/-- The directories that a system makes for what is needed for a while. -/
class Scratch where
  /-- The path of the next one, on a disk and as chance has it. -/
  path : (chance : Nat) → Disk → Path

/-- What a system brings along. -/
class Host extends Text.Codecs, Serializer, Source.Highlighter, Page.Engine, Scratch

end Refsite
