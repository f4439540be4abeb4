import Tribyte.Text

/-!
# The named bytes

A table lists names with their values. Names are looked up without regard to the case of ASCII
letters, values exactly, and the first entry that fits wins. A table of single bits also reads a
mask as the names of the bits that it holds.

The tables are those of the registers, opcodes, system calls and jump conditions. Every value is a
single bit, so values of one table can be joined into a mask. A name of one operand table is never a
name of another.
-/

namespace Tribyte

structure Table where
  name : String
  entries : List (String × UInt8)

namespace Table

variable (t : Table)

def get? (name : Text) : Option UInt8 :=
  (t.entries.find? fun (n, _) => Text.sameLetters n.toList name).map Prod.snd

def nameOf? (value : UInt8) : Option String :=
  (t.entries.find? fun (_, v) => v == value).map Prod.fst

def flagsOf (mask : UInt8) : List String :=
  (t.entries.filter fun (_, v) => v != 0 && mask &&& v == v).map Prod.fst

end Table

namespace Constants

def register : Table :=
  ⟨"register", [("a", 0x10), ("b", 0x02), ("c", 0x40), ("d", 0x01), ("s", 0x08), ("f", 0x20),
    ("i", 0x04)]⟩

def opcode : Table :=
  ⟨"opcode", [("imm", 0x01), ("add", 0x80), ("stk", 0x02), ("stm", 0x04), ("ldm", 0x20),
    ("cmp", 0x08), ("jmp", 0x40), ("sys", 0x10)]⟩

def systemCall : Table :=
  ⟨"syscall", [("open", 0x20), ("read_code", 0x02), ("read_mem", 0x01), ("write", 0x04),
    ("sleep", 0x10), ("exit", 0x08)]⟩

def jumpCondition : Table :=
  ⟨"jump condition", [("lt", 0x08), ("gt", 0x04), ("eq", 0x10), ("nz", 0x02), ("z", 0x01)]⟩

def tables : List Table := [register, opcode, systemCall, jumpCondition]

/-- Where an operand's name is looked up, in this order. -/
def operandTables : List Table := [register, systemCall, jumpCondition]

end Constants

end Tribyte
