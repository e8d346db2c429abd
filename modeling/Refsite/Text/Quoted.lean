import Refsite.Text.Basic
import Refsite.Text.Digit
import Refsite.Text.Printable
namespace Refsite.Text.Quoted

def quoteMark (text : List Char) : Char :=
  if text.contains '\'' && !text.contains '"' then '"' else '\''

/-- One character between marks: the mark and the backslash are escaped, a code point that cannot be
shown takes two, four or eight digits. -/
def encodeChar (mark c : Char) : List Char :=
  if c == mark || c == '\\' then ['\\', c]
  else if c == '\n' then ['\\', 'n']
  else if c == '\r' then ['\\', 'r']
  else if c == '\t' then ['\\', 't']
  else if isPrintable c then [c]
  else if c.toNat < 0x100 then ['\\', 'x'] ++ hexDigits lowerHexDigits 2 c.toNat
  else if c.toNat < 0x10000 then ['\\', 'u'] ++ hexDigits lowerHexDigits 4 c.toNat
  else ['\\', 'U'] ++ hexDigits lowerHexDigits 8 c.toNat

def encode (text : List Char) : List Char :=
  let mark := quoteMark text
  mark :: text.flatMap (encodeChar mark) ++ [mark]

end Refsite.Text.Quoted

namespace Refsite

def quoted (s : String) : String := onChars Text.Quoted.encode s

end Refsite
