import Tribyte.Layout

/-!
# Commands

What the command line can be asked to do: print a listing of a code file, assemble a source file,
put a code file into another layout, or print the named constants. Output goes to the standard
output unless a file is named.
-/

namespace Tribyte.Cli

inductive Command
  | disasm (file : String) (layout : Option Layout)
  | asm (file : String) (layout : Layout) (output : Option String) (tagged : Bool)
  | convert (file : String) (source target : Layout) (output : Option String)
  | constants
deriving DecidableEq, Repr

def Command.input? : Command → Option String
  | .disasm file _ | .asm file .. | .convert file .. => some file
  | .constants => none

inductive Subcommand
  | disasm
  | asm
  | convert
  | constants
deriving DecidableEq, Repr

inductive Key
  | format
  | source
  | target
  | output
  | tagged
deriving DecidableEq, Repr

def Key.name : Key → String
  | .format => "format"
  | .source => "from"
  | .target => "to"
  | .output => "output"
  | .tagged => "tagged"

def Key.takesValue : Key → Bool
  | .tagged => false
  | _ => true

namespace Subcommand

def all : List Subcommand := [.disasm, .asm, .convert, .constants]

def name : Subcommand → String
  | .disasm => "disasm"
  | .asm => "asm"
  | .convert => "convert"
  | .constants => "constants"

def ofName? (name : String) : Option Subcommand := all.find? (·.name == name)

def takesFile : Subcommand → Bool
  | .constants => false
  | _ => true

def keys : Subcommand → List Key
  | .disasm => [.format]
  | .asm => [.format, .output, .tagged]
  | .convert => [.source, .target, .output]
  | .constants => []

def key? (s : Subcommand) (name : Text) : Option Key := s.keys.find? (·.name.toList == name)

end Subcommand

end Tribyte.Cli
