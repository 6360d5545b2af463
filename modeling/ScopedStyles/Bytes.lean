/-!
# Bytes

Paths and names of files are rows of bytes, of which nothing more is known. `Bytes.ofText` gives the
bytes of a text and `Bytes.text` the text that bytes are shown as. Bytes that make no character are
shown as `U+FFFD`, one for each row of bytes that starts a character and does not end it, so
different bytes may be shown as one text.
-/

namespace ScopedStyles

abbrev Bytes := List UInt8

namespace Bytes

/-- The bytes of a text in UTF-8. -/
def ofText (s : String) : Bytes := s.toUTF8.data.toList

/-- Texts stand for their bytes. -/
instance : Coe String Bytes := ⟨ofText⟩

/-- A character whose first bytes have been read: how many bytes it still takes behind the next
one, the range of the next one, and the number read so far. -/
structure Pending where
  owed : Nat
  low : UInt8
  high : UInt8
  value : Nat
deriving DecidableEq, Repr, Inhabited

/-- What is shown for bytes that make no character. -/
def unreadable : Char := Char.ofNat 0xFFFD

/-- Reads a byte where a character may start. -/
def start (b : UInt8) : List Char × Option Pending :=
  if b < 0x80 then ([Char.ofNat b.toNat], none)
  else if b < 0xC2 then ([unreadable], none)
  else if b < 0xE0 then ([], some ⟨0, 0x80, 0xBF, b.toNat - 0xC0⟩)
  -- the narrower ranges leave out what fewer bytes can say, surrogates and what is too large
  else if b < 0xF0 then
    ([], some ⟨1, if b = 0xE0 then 0xA0 else 0x80, if b = 0xED then 0x9F else 0xBF,
      b.toNat - 0xE0⟩)
  else if b < 0xF5 then
    ([], some ⟨2, if b = 0xF0 then 0x90 else 0x80, if b = 0xF4 then 0x8F else 0xBF,
      b.toNat - 0xF0⟩)
  else ([unreadable], none)

/-- Reads a byte: the characters that are known now, and what is pending. -/
def step : Option Pending → UInt8 → List Char × Option Pending
  | none, b => start b
  | some p, b =>
    if p.low ≤ b ∧ b ≤ p.high then
      let value := p.value * 64 + (b.toNat - 0x80)
      match p.owed with
      | 0 => ([Char.ofNat value], none)
      | owed + 1 => ([], some ⟨owed, 0x80, 0xBF, value⟩)
    else
      let (cs, next) := start b
      (unreadable :: cs, next)

/-- The characters of bytes, with what is pending in front of them. -/
def chars : Option Pending → Bytes → List Char
  | none, [] => []
  | some _, [] => [unreadable]
  | p, b :: bs =>
    let (cs, next) := step p b
    cs ++ chars next bs

/-- The text that bytes are shown as. -/
def text (bs : Bytes) : String := String.ofList (chars none bs)

end Bytes

end ScopedStyles
