import Tribyte.Layout

/-!
# Code streams and tagged images

A code stream is a run of instructions in one layout with nothing between them. Scanning gives the
whole instructions and the bytes that are left over; a stream with bytes left over is refused as a
whole, at the offset where they start. An image is a code stream behind one byte, the tag of its
layout. What is an image can be told from the tag and the length alone.
-/

namespace Tribyte

namespace Stream

def scanFrom (l : Layout) (read : List Instruction) :
    List UInt8 → List Instruction × List UInt8
  | a :: b :: c :: rest => scanFrom l (l.unpack (Word.ofBytes a b c).toBits :: read) rest
  | rest => (read.reverse, rest)

def scan (l : Layout) (bytes : List UInt8) : List Instruction × List UInt8 :=
  scanFrom l [] bytes

def decode (l : Layout) (bytes : List UInt8) : Except Error (List Instruction) :=
  match scan l bytes with
  | (code, []) => .ok code
  | (code, rest) => .error (.truncated (Instruction.width * code.length) rest.length)

def encode (l : Layout) (code : List Instruction) : List UInt8 := code.flatMap l.encode

def transcode (source target : Layout) (bytes : List UInt8) : Except Error (List UInt8) :=
  (decode source bytes).map (encode target)

theorem scanFrom_eq (l : Layout) : ∀ (read : List Instruction) (bytes : List UInt8),
    scanFrom l read bytes = (read.reverse ++ (scan l bytes).1, (scan l bytes).2)
  | read, a :: b :: c :: rest => by
    let i := l.unpack (Word.ofBytes a b c).toBits
    rw [scan, scanFrom, scanFrom, scanFrom_eq l (i :: read) rest, scanFrom_eq l [i] rest]
    simp [i]
  | _, [] | _, [_] | _, [_, _] => by simp [scan, scanFrom]

theorem scan_cons (l : Layout) (a b c : UInt8) (rest : List UInt8) :
    scan l (a :: b :: c :: rest) =
      (l.unpack (Word.ofBytes a b c).toBits :: (scan l rest).1, (scan l rest).2) := by
  rw [scan, scanFrom, scanFrom_eq]
  rfl

theorem scan_of_length_lt {l : Layout} {bytes : List UInt8} (h : bytes.length < 3) :
    scan l bytes = ([], bytes) := by
  match bytes, h with
  | [], _ | [_], _ | [_, _], _ => rfl

end Stream

structure Image where
  layout : Layout
  code : List Instruction
deriving DecidableEq, Repr

namespace Image

def toBytes (image : Image) : List UInt8 :=
  image.layout.tag :: Stream.encode image.layout image.code

/-- A truncated body is reported at its offset in the whole image, tag included. -/
def bodyError : Error → Error
  | .truncated offset remaining => .truncated (offset + 1) remaining
  | e => e

def ofBytes : List UInt8 → Except Error Image
  | [] => .error (.invalidLength 1 0)
  | tag :: body => do
    let layout ← Layout.ofTag tag
    let code ← (Stream.decode layout body).mapError bodyError
    return ⟨layout, code⟩

def isImage : List UInt8 → Bool
  | [] => false
  | tag :: body => (Layout.ofTag tag).isOk && body.length % Instruction.width == 0

end Image

end Tribyte
