import Tribyte.Assembly.Token

/-!
# Source text

The code of a line ends at its first semicolon. Its tokens are the longest runs of characters that
are neither white space nor commas. A line has no tokens, or an opcode and two operands, which are
read from left to right.

Source is read line by line, and the first bad line is reported with its number, counted from one.
Every instruction can be written as a line that reads back as itself.
-/

namespace Tribyte

namespace Line

def code (line : Text) : Text := line.takeWhile (· != ';')

def isSeparator (c : Char) : Bool := c == ',' || Text.isBlank c

def tokens (text : Text) : List Text := (text.splitOnP isSeparator).filter (· != [])

def instruction (op arg1 arg2 : Text) : Except Fault Instruction := do
  return ⟨← Token.opcode op, ← Token.operand arg1, ← Token.operand arg2⟩

def parse (line : Text) : Except Fault (Option Instruction) :=
  match tokens (code line) with
  | [] => .ok none
  | [op, arg1, arg2] => (instruction op arg1 arg2).map some
  | others => .error (.tokenCount others.length)

end Line

namespace Assembly

def parseLine : Text × Nat → Except Error (Option Instruction)
  | (line, number) => (Line.parse line).mapError (.source number)

/-- Reads lines of which the first has the number `first`. -/
def readFrom (first : Nat) (lines : List Text) : Except Error (List Instruction) :=
  ((lines.zipIdx first).mapM parseLine).map (·.filterMap id)

def assemble (source : Text) : Except Error (List Instruction) := readFrom 1 source.lines

def disassemble (code : List Instruction) : Text := code.flatMap (·.text ++ ['\n'])

end Assembly

end Tribyte
