import Tribyte.Constants

/-!
# Instructions

An instruction is an opcode byte and two operand bytes. Its text is the mnemonic, or the opcode as
a number when no single opcode has that value, and then both operands as numbers.
-/

namespace Tribyte

inductive Slot
  | op
  | arg1
  | arg2
deriving DecidableEq, Repr

def Slot.name : Slot → String
  | .op => "op"
  | .arg1 => "arg1"
  | .arg2 => "arg2"

@[ext]
structure Instruction where
  op : UInt8 := 0
  arg1 : UInt8 := 0
  arg2 : UInt8 := 0
deriving DecidableEq, Repr, Inhabited

namespace Instruction

def width : Nat := 3

def get (i : Instruction) : Slot → UInt8
  | .op => i.op
  | .arg1 => i.arg1
  | .arg2 => i.arg2

def mnemonic? (i : Instruction) : Option String := Constants.opcode.nameOf? i.op

def opcodeText (i : Instruction) : Text :=
  match i.mnemonic? with
  | some name => name.toList
  | none => Text.hexByte i.op

def text (i : Instruction) : Text :=
  i.opcodeText ++ ' ' :: Text.hexByte i.arg1 ++ ' ' :: Text.hexByte i.arg2

end Instruction

end Tribyte
