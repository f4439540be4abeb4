import Tribyte.Cli.Files
import Tribyte.Layout

/-!
# The log

What a command reports while it works. An event keeps its data and has a level; the line written
for it is the name of the level and the message. Control characters that a terminal would act upon
are written as escapes. Events below the chosen level are dropped.
-/

namespace Tribyte.Cli

inductive Failure
  | unreadable (path : String) (cause : FileError)
  | unwritable (path : String) (cause : FileError)
  | code (cause : Error)
deriving DecidableEq, Repr

def Failure.message : Failure → String
  | .unreadable path cause => s!"couldn't read {path}: {cause.message}"
  | .unwritable path cause => s!"couldn't write {path}: {cause.message}"
  | .code cause => cause.message

inductive Level
  | error
  | warn
  | info
  | debug
  | trace
deriving DecidableEq, Repr

namespace Level

def all : List Level := [.error, .warn, .info, .debug, .trace]

def name : Level → String
  | .error => "ERROR"
  | .warn => "WARN"
  | .info => "INFO"
  | .debug => "DEBUG"
  | .trace => "TRACE"

def rank : Level → Nat
  | .error => 1
  | .warn => 2
  | .info => 3
  | .debug => 4
  | .trace => 5

end Level

/-- The rank up to which events are logged: the name of a level, or `off` for none at all. -/
def verbosity? (name : String) : Option Nat :=
  if Text.sameLetters "off".toList name.toList then some 0
  else (Level.all.find? (Text.sameLetters ·.name.toList name.toList)).map Level.rank

def verbosity (chosen : Option String) : Nat := (chosen.bind verbosity?).getD Level.info.rank

inductive Event
  | decoded (instruction : Instruction) (layout : Layout)
  | decodedStream (count : Nat) (layout : Layout)
  | transcoding (source target : Layout) (count : Nat)
  | assembled (count : Nat)
  | untagged (assumed : Layout)
  | sameLayout (layout : Layout)
  | wrote (count : Nat) (path : String)
  | failed (failure : Failure)
deriving DecidableEq, Repr

namespace Event

def level : Event → Level
  | .decoded .. => .trace
  | .decodedStream .. | .transcoding .. | .assembled .. => .debug
  | .wrote .. => .info
  | .untagged .. | .sameLayout .. => .warn
  | .failed .. => .error

def message : Event → String
  | .decoded i l =>
    s!"decoded instruction instr=Instruction \x7b op: {i.op}, arg1: {i.arg1}, " ++
      s!"arg2: {i.arg2} \x7d format={l.name}"
  | .decodedStream n l => s!"decoded code stream count={n} format={l.name}"
  | .transcoding s t n => s!"transcoding from={s.name} to={t.name} count={n}"
  | .assembled n => s!"assembled count={n}"
  | .untagged l => s!"no format given and no image tag found, assuming {l.name}"
  | .sameLayout l => s!"converting {l.name} to itself"
  | .wrote n path => s!"wrote {n} bytes to {path}"
  | .failed f => f.message

end Event

def visible (c : Char) : Text :=
  if c.toNat ∈ [0x07, 0x08, 0x0C, 0x1B, 0x7F] then
    '\\' :: 'x' :: (Nat.toDigits 16 c.toNat).leftpad 2 '0'
  else if 0x80 ≤ c.toNat ∧ c.toNat ≤ 0x9F then
    "\\u\x7b".toList ++ Nat.toDigits 16 c.toNat ++ ['\x7d']
  else [c]

def Event.line (e : Event) : Text :=
  e.level.name.toList ++ ' ' :: e.message.toList.flatMap visible

/-- The lines of the events up to the given rank, in order. A line feed in a message, which only a
file name can bring, starts a new line. -/
def logLines (verbosity : Nat) (events : List Event) : List String :=
  ((events.filter (·.level.rank ≤ verbosity)).flatMap (·.line.splitOn '\n')).map String.ofList

end Tribyte.Cli
