import Refsite.Text.Digit
import Refsite.Text.Utf8
namespace Refsite.Text.Percent

/-- The marks that are left alone. The percent sign is not among them, so an encoded text can be
read back. -/
def marks : List Char := ";,/?:@&=+$-_.!~*'()#".toList

def isPlain (c : Char) : Bool := c.isAlphanum || marks.contains c

def encodeByte (b : UInt8) : List Char := '%' :: hexDigits upperHexDigits 2 b.toNat

def encodeChar (c : Char) : List Char :=
  if isPlain c then [c] else (Utf8.encodeChar c).flatMap encodeByte

def encode (text : List Char) : List Char := text.flatMap encodeChar

def escape? : List Char → Option UInt8
  | high :: low :: _ => do
    let h ← hexValue? high
    let l ← hexValue? low
    return UInt8.ofNat (16 * h + l)
  | _ => none

/-- The characters of a text with every escape resolved. Escapes and ASCII characters that stand
together are one byte sequence, of which `bytes` holds what was read so far, backwards; `skip`
characters of an escape are still to be passed over. -/
def decodeAfter : (bytes : List UInt8) → (skip : Nat) → List Char → List Char
  | bytes, _, [] => Utf8.decodeLossy bytes.reverse
  | bytes, skip + 1, _ :: text => decodeAfter bytes skip text
  | bytes, 0, c :: text =>
    if c.toNat < 0x80 then
      match if c == '%' then escape? text else none with
      | some b => decodeAfter (b :: bytes) 2 text
      | none => decodeAfter (UInt8.ofNat c.toNat :: bytes) 0 text
    else Utf8.decodeLossy bytes.reverse ++ c :: decodeAfter [] 0 text

def decode (text : List Char) : List Char := decodeAfter [] 0 text

end Refsite.Text.Percent
