import Tribyte.Error

/-!
# Numerals, opcodes and operands

A token that starts with `0x`, `0b` or a decimal digit is a numeral in base sixteen, two or ten;
letters count in either case. One plus sign may stand in front of the digits that follow a base
mark. A numeral is malformed when it has no digits, when it has anything else among them, or when
its value needs more than 32 bits. One that is well formed still has to fit in a byte.

An opcode is a numeral or a name of the opcode table. An operand is one term or several joined by
`|`, each a numeral or a name of an operand table, and its value is the bitwise or of theirs. A
numeral is never looked up as a name. The leftmost bad term is the one reported; an empty term
reports the whole operand. A token holds no white space, so terms are not trimmed.
-/

namespace Tribyte

structure Numeral where
  base : Nat
  digits : Text
deriving DecidableEq, Repr

namespace Numeral

def ofToken? (token : Text) : Option Numeral :=
  match Text.lower token with
  | '0' :: 'x' :: digits => some ⟨16, digits⟩
  | '0' :: 'b' :: digits => some ⟨2, digits⟩
  | c :: rest => if c.isDigit then some ⟨10, c :: rest⟩ else none
  | [] => none

def digit? (base : Nat) (c : Char) : Option Nat :=
  let d :=
    if c.isDigit then c.toNat - '0'.toNat
    else if c.isLower then c.toNat - 'a'.toNat + 10
    else base
  if d < base then some d else none

def total (base : Nat) (digits : List Nat) : Nat := digits.foldl (base * · + ·) 0

def unsigned : Text → Text
  | '+' :: digits => digits
  | digits => digits

def value? (n : Numeral) : Option Nat :=
  match unsigned n.digits with
  | [] => none
  | digits =>
    match digits.mapM (digit? n.base) with
    | none => none
    | some ds => if total n.base ds < UInt32.size then some (total n.base ds) else none

def byte (token : Text) (n : Numeral) : Except Fault UInt8 :=
  match n.value? with
  | none => .error (.malformedNumber token)
  | some v => if v < 256 then .ok (UInt8.ofNat v) else .error (.tooWide token)

end Numeral

namespace Token

def numeral? (token : Text) : Option (Except Fault UInt8) :=
  (Numeral.ofToken? token).map (Numeral.byte token)

def opcode (token : Text) : Except Fault UInt8 :=
  match numeral? token with
  | some result => result
  | none =>
    match Constants.opcode.get? token with
    | some value => .ok value
    | none => .error (.unknownOpcode token)

def symbol? (name : Text) : Option UInt8 :=
  Constants.operandTables.findSome? (·.get? name)

def terms (token : Text) : List Text := token.splitOn '|'

def term (whole : Text) : Text → Except Fault UInt8
  | [] => .error (.emptyTerm whole)
  | part =>
    match numeral? part with
    | some result => result
    | none =>
      match symbol? part with
      | some value => .ok value
      | none => .error (.unknownOperand part)

def join (values : List UInt8) : UInt8 := values.foldl (· ||| ·) 0

def operand (token : Text) : Except Fault UInt8 :=
  ((terms token).mapM (term token)).map join

end Token

end Tribyte
