namespace Refsite.Text.Utf8

def encodeChar (c : Char) : List UInt8 :=
  let n := c.toNat
  let tail (unit : Nat) := UInt8.ofNat (0x80 + n / unit % 64)
  if n < 0x80 then [UInt8.ofNat n]
  else if n < 0x800 then [UInt8.ofNat (0xC0 + n / 64), tail 1]
  else if n < 0x10000 then [UInt8.ofNat (0xE0 + n / 4096), tail 64, tail 1]
  else [UInt8.ofNat (0xF0 + n / 262144), tail 4096, tail 64, tail 1]

def encode (text : List Char) : List UInt8 := text.flatMap encodeChar

/-- Inside a character: the bytes still owed after the next one, the window of the next byte and the
bits read so far. -/
structure Pending where
  owed : Nat
  low : Nat
  high : Nat
  bits : Nat
  deriving DecidableEq, Repr

/-- What a byte is at the place where a character starts. -/
inductive Lead where
  | whole (c : Char)
  | opens (p : Pending)
  | stray
  deriving DecidableEq, Repr

def lead (b : Nat) : Lead :=
  if b < 0x80 then .whole (Char.ofNat b)
  else if b < 0xC2 then .stray
  else if b < 0xE0 then .opens ⟨0, 0x80, 0xBF, b - 0xC0⟩
  else if b == 0xE0 then .opens ⟨1, 0xA0, 0xBF, 0⟩
  else if b == 0xED then .opens ⟨1, 0x80, 0x9F, 0xD⟩
  else if b < 0xF0 then .opens ⟨1, 0x80, 0xBF, b - 0xE0⟩
  else if b == 0xF0 then .opens ⟨2, 0x90, 0xBF, 0⟩
  else if b < 0xF4 then .opens ⟨2, 0x80, 0xBF, b - 0xF0⟩
  else if b == 0xF4 then .opens ⟨2, 0x80, 0x8F, 4⟩
  else .stray

def scan : Option Pending → List UInt8 → List (Option Char)
  | none, [] => []
  | some _, [] => [none]
  | none, b :: bytes =>
    match lead b.toNat with
    | .whole c => some c :: scan none bytes
    | .opens p => scan (some p) bytes
    | .stray => none :: scan none bytes
  | some p, b :: bytes =>
    if p.low ≤ b.toNat && b.toNat ≤ p.high then
      let bits := p.bits * 64 + (b.toNat - 0x80)
      match p.owed with
      | 0 => some (Char.ofNat bits) :: scan none bytes
      | owed + 1 => scan (some ⟨owed, 0x80, 0xBF, bits⟩) bytes
    else none ::
      match lead b.toNat with
      | .whole c => some c :: scan none bytes
      | .opens q => scan (some q) bytes
      | .stray => none :: scan none bytes

def decode? (bytes : List UInt8) : Option (List Char) := (scan none bytes).mapM id

def decodeLossy (bytes : List UInt8) : List Char := (scan none bytes).map (·.getD '\uFFFD')

end Refsite.Text.Utf8
