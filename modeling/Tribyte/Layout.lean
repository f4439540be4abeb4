import Tribyte.Error
import Tribyte.Word

/-!
# Layouts

A layout is an order of the three parts of an instruction in its three bytes: `op arg1 arg2` in the
first, `arg2 op arg1` in the second. The bytes do not tell which one wrote them. A layout has a
name, and a tag byte that stands for it at the head of an image.

It gives every part of an instruction its own eight bits of the word. Packing writes the three
fields into one word, unpacking reads them back, and the bytes are those of the word.
-/

namespace Tribyte

inductive Layout
  | v1
  | v2
deriving DecidableEq, Repr, Inhabited

namespace Layout

def all : List Layout := [.v1, .v2]

def name : Layout → String
  | .v1 => "v1"
  | .v2 => "v2"

def tag : Layout → UInt8
  | .v1 => 1
  | .v2 => 2

def ofTag (tag : UInt8) : Except Error Layout :=
  if tag = 1 then .ok .v1 else if tag = 2 then .ok .v2 else .error (.unknownTag tag)

def ofName (name : String) : Except Error Layout :=
  let written := Text.lower name.toList
  if written = ['v', '1'] ∨ written = ['1'] then .ok .v1
  else if written = ['v', '2'] ∨ written = ['2'] then .ok .v2
  else .error (.unknownName name)

theorem ofTag_tag (l : Layout) : ofTag l.tag = .ok l := by cases l <;> rfl

theorem ofTag_eq_ok_iff {t : UInt8} {l : Layout} : ofTag t = .ok l ↔ t = l.tag := by
  constructor
  · intro h
    unfold ofTag at h
    split at h
    · cases h; assumption
    · split at h <;> cases h
      assumption
  · rintro rfl
    exact ofTag_tag l

def field : Layout → Slot → Field 32
  | .v1, .op => { width := 8, offset := 16 }
  | .v1, .arg1 => { width := 8, offset := 8 }
  | .v1, .arg2 => { width := 8, offset := 0 }
  | .v2, .arg2 => { width := 8, offset := 16 }
  | .v2, .op => { width := 8, offset := 8 }
  | .v2, .arg1 => { width := 8, offset := 0 }

def pack (l : Layout) (i : Instruction) : Word :=
  let part s := (l.field s).put ((i.get s).toBitVec.setWidth 32)
  Word.ofBits (part .op ||| part .arg1 ||| part .arg2)

def unpack (l : Layout) (w : BitVec 32) : Instruction :=
  let part s : UInt8 := ⟨((l.field s).get w).setWidth 8⟩
  ⟨part .op, part .arg1, part .arg2⟩

def encode (l : Layout) (i : Instruction) : List UInt8 := (l.pack i).toBytes

def decode (l : Layout) : List UInt8 → Except Error Instruction
  | [a, b, c] => .ok (l.unpack (Word.ofBytes a b c).toBits)
  | bytes => .error (.invalidLength Instruction.width bytes.length)

/-- Reads the instruction at the head of `memory` and tells how many bytes it took. -/
def readHead (l : Layout) (memory : List UInt8) : Except Error (Instruction × Nat) :=
  if memory.length < Instruction.width then
    .error (.invalidLength Instruction.width memory.length)
  else
    (l.decode (memory.take Instruction.width)).map (·, Instruction.width)

theorem readHead_of_length_lt {l : Layout} {memory : List UInt8} (h : memory.length < 3) :
    l.readHead memory = .error (.invalidLength 3 memory.length) := by
  rw [readHead, Instruction.width, if_pos h]

theorem readHead_cons (l : Layout) (a b c : UInt8) (rest : List UInt8) :
    l.readHead (a :: b :: c :: rest) =
      .ok (l.unpack (Word.ofBytes a b c).toBits, Instruction.width) := by
  have hlen : ¬ (a :: b :: c :: rest).length < Instruction.width := by simp [Instruction.width]
  rw [readHead, if_neg hlen]
  rfl

theorem length_encode (l : Layout) (i : Instruction) : (l.encode i).length = 3 := rfl

end Layout

end Tribyte
