import Tribyte.Instruction

/-!
# What can go wrong

A `Fault` is what is wrong with one line of source text, an `Error` what makes an operation of the
library fail. Each keeps the data of its cause, and `message` gives the wording. Three numbers make
an instruction when each fits in a byte; the first that does not, in the order opcode, first
operand, second operand, is the one reported.
-/

namespace Tribyte

inductive Fault
  | tokenCount (found : Nat)
  | malformedNumber (token : Text)
  | tooWide (token : Text)
  | unknownOpcode (token : Text)
  | unknownOperand (term : Text)
  | emptyTerm (operand : Text)
deriving DecidableEq, Repr

def Fault.message : Fault → String
  | .tokenCount n => s!"expected `<opcode> <arg1> <arg2>`, found {n} token(s)"
  | .malformedNumber t => s!"malformed number `{String.ofList t}`"
  | .tooWide t => s!"value `{String.ofList t}` does not fit in a byte"
  | .unknownOpcode t => s!"unknown opcode `{String.ofList t}`"
  | .unknownOperand t => s!"unknown operand `{String.ofList t}`"
  | .emptyTerm t => s!"empty term in operand `{String.ofList t}`"

inductive Error
  | invalidLength (expected actual : Nat)
  | outOfRange (slot : Slot) (value : Nat)
  | unknownTag (tag : UInt8)
  | unknownName (name : String)
  | truncated (offset remaining : Nat)
  | source (line : Nat) (fault : Fault)
deriving DecidableEq, Repr

def Error.message : Error → String
  | .invalidLength e a => s!"invalid instruction length: expected {e} bytes, got {a}"
  | .outOfRange f v => s!"value {v} out of range for field `{f.name}` (0..=255)"
  | .unknownTag t => s!"unknown instruction format tag {String.ofList (Text.hexByte t)}"
  | .unknownName n => s!"unknown instruction format `{n}` (expected v1 or v2)"
  | .truncated o r => s!"code stream truncated at offset {o}: {r} trailing byte(s)"
  | .source l f => s!"line {l}: {f.message}"

namespace Instruction

def narrow (slot : Slot) (value : Nat) : Except Error UInt8 :=
  if value < 256 then .ok (UInt8.ofNat value) else .error (.outOfRange slot value)

def ofNats (op arg1 arg2 : Nat) : Except Error Instruction := do
  return ⟨← narrow .op op, ← narrow .arg1 arg1, ← narrow .arg2 arg2⟩

end Instruction

end Tribyte
