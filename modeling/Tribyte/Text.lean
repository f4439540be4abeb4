/-!
# Text

Source text and tokens are lists of characters. Letters are compared without regard to case in the
ASCII range alone: `É` and `é` differ. White space are the characters with the Unicode property
White_Space, twenty-five in all; the zero-width space and the byte order mark are not among them. A
line ends at a line feed, with the carriage return in front of it if there is one, or at the end of
the text; what is behind the last line feed is a line only if it is not empty. Hexadecimal numbers
are written `0x` and then lower-case digits, with zeros in front up to a least width. A file holds
text as UTF-8.
-/

namespace Tribyte

abbrev Text := List Char

namespace Text

def lower (t : Text) : Text := t.map Char.toLower

def sameLetters (a b : Text) : Bool := lower a == lower b

def blankRuns : List (Nat × Nat) :=
  [(0x09, 0x0D), (0x20, 0x20), (0x85, 0x85), (0xA0, 0xA0), (0x1680, 0x1680), (0x2000, 0x200A),
    (0x2028, 0x2029), (0x202F, 0x202F), (0x205F, 0x205F), (0x3000, 0x3000)]

def isBlank (c : Char) : Bool :=
  blankRuns.any fun (first, last) => first ≤ c.toNat && c.toNat ≤ last

def stripReturn (line : Text) : Text := if line.getLast? = some '\r' then line.dropLast else line

def lines (t : Text) : List Text :=
  let pieces := t.splitOn '\n'
  pieces.dropLast.map stripReturn ++ pieces.getLast?.toList.filter (· != [])

def hex (width n : Nat) : Text :=
  '0' :: 'x' :: (Nat.toDigits 16 n).leftpad width '0'

def hexByte (b : UInt8) : Text := hex 2 b.toNat

def utf8 (t : Text) : List UInt8 := t.flatMap String.utf8EncodeChar

def ofUtf8? (bytes : List UInt8) : Option Text :=
  bytes.toByteArray.utf8Decode?.map Array.toList

theorem sameLetters_iff {a b : Text} : sameLetters a b = true ↔ lower a = lower b := by
  simp [sameLetters]

theorem ofUtf8?_utf8 (t : Text) : ofUtf8? (utf8 t) = some t := by
  simp [ofUtf8?, show (utf8 t).toByteArray = t.utf8Encode from rfl]

end Text

end Tribyte
