import Tribyte.Assembly
import Tribyte.Cli.Effects
import Tribyte.Cli.Arguments
import Tribyte.Stream

/-!
# Running the command line

What each command does, in order, and what a run of the program comes to: an exit status, the
standard output, the events logged and the files afterwards. Status 0 is success, 1 a command that
failed, whose failure is logged last, and 2 arguments that were refused, in which case nothing is
done.

A listing of code names its layout in the first line and then has one row for each instruction: its
text, and from column 21 on the offset of its bytes as a comment. The listing of the constants has
one line for each table, none of them longer than eighty columns.
-/

namespace Tribyte.Cli

open Fallible

def header (l : Layout) : Text := "; format ".toList ++ l.name.toList

def listingRow (i : Instruction) (offset : Nat) : Text :=
  i.text.rightpad 20 ' ' ++ "; ".toList ++ Text.hex 4 offset

def listingRows (code : List Instruction) : List Text :=
  code.zipIdx.map fun (i, k) => listingRow i (Instruction.width * k)

def tableLine (t : Table) : Text :=
  t.name.toList ++ ':' ::
    t.entries.flatMap fun (name, value) => ' ' :: name.toList ++ '=' :: Text.hexByte value

example : ∀ t ∈ Constants.tables, (tableLine t).length ≤ 80 := by decide

/-- Every instruction that can be read is logged, also in front of a truncated end. -/
def decodeStream (l : Layout) (bytes : List UInt8) : Fallible (List Instruction) := do
  forM (Stream.scan l bytes).1 fun i => log (.decoded i l)
  let code ← orFail (Stream.decode l bytes)
  log (.decodedStream code.length l)
  return code

def assumeFirst (bytes : List UInt8) : Fallible (Layout × List UInt8) := do
  log (.untagged .v1)
  return (.v1, bytes)

/-- The layout and the code of a file. Without a tag the first layout is assumed, with a warning. -/
def detect : Option Layout → List UInt8 → Fallible (Layout × List UInt8)
  | some l, bytes => return (l, bytes)
  | none, [] => assumeFirst []
  | none, tag :: body =>
    if Image.isImage (tag :: body) then do
      let l ← orFail (Layout.ofTag tag)
      return (l, body)
    else assumeFirst (tag :: body)

def printListing (file : String) (given : Option Layout) : Fallible Unit := do
  let bytes ← readFile file
  let (l, body) ← detect given bytes
  let code ← decodeStream l body
  printLine (header l)
  forM (listingRows code) printLine

def codeFile (l : Layout) (tagged : Bool) (code : List Instruction) : List UInt8 :=
  if tagged then (Image.mk l code).toBytes else Stream.encode l code

def assembleFile (file : String) (l : Layout) (output : Option String) (tagged : Bool) :
    Fallible Unit := do
  let source ← readText file
  let code ← orFail (Assembly.assemble source)
  log (.assembled code.length)
  writeOutput output (codeFile l tagged code)

def warnIfSame (source target : Layout) : Fallible Unit :=
  if source = target then log (.sameLayout source) else return ()

def convertFile (file : String) (source target : Layout) (output : Option String) :
    Fallible Unit := do
  warnIfSame source target
  let code ← decodeStream source (← readFile file)
  log (.transcoding source target code.length)
  writeOutput output (Stream.encode target code)

def printConstants : Fallible Unit := forM (Constants.tables.map tableLine) printLine

def Command.body : Command → Fallible Unit
  | .disasm file given => printListing file given
  | .asm file l output tagged => assembleFile file l output tagged
  | .convert file source target output => convertFile file source target output
  | .constants => printConstants

def exitStatus : Except Failure Unit → Effects Nat
  | .ok () => .done 0
  | .error failure => .log (.failed failure) (.done 1)

def Command.effects (command : Command) : Effects Nat := command.body.run >>= exitStatus

def usage : String :=
  "Usage: tribyte <COMMAND>\n\n" ++
  "  disasm FILE [--format LAYOUT]\n" ++
  "  asm FILE [--format LAYOUT] [-o OUTPUT] [--tagged]\n" ++
  "  convert FILE --from LAYOUT --to LAYOUT [-o OUTPUT]\n" ++
  "  constants\n\n" ++
  "A LAYOUT is v1 or v2.\n"

def program (arguments : List String) : Effects Nat :=
  match Command.parse arguments with
  | .error .help => .print (Text.utf8 usage.toList) (.done 0)
  | .error .refused => .done 2
  | .ok command => command.effects

structure Outcome where
  status : Nat
  stdout : List UInt8
  events : List Event
  files : Files

def Effects.outcome (effects : Effects Nat) (files : Files) : Outcome :=
  let (status, after) := effects.eval { files }
  ⟨status, after.stdout.toList, after.events.toList, after.files⟩

def Command.run (files : Files) (command : Command) : Outcome := command.effects.outcome files

def run (files : Files) (arguments : List String) : Outcome := (program arguments).outcome files

end Tribyte.Cli
