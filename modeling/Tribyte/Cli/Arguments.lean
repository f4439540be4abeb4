import Tribyte.Cli.Command

/-!
# Command-line arguments

The first argument names the subcommand. After it, settings and operands come in any order: a
setting is `--name value` or `--name=value`, and the output file also `-o value`, `-ovalue` or
`-o=value`. `--` ends the settings, and `-` alone is an operand or a value like any other. Arguments
are read from left to right. One that is unknown, repeated, empty or left over is refused where it
stands, and so is a value that cannot be read or that looks like a setting; a request for help is
granted if nothing in front of it was refused. What is missing shows only at the end.
-/

namespace Tribyte.Cli

inductive Stop
  | help
  | refused
deriving DecidableEq, Repr

def orRefuse {α : Type} : Option α → Except Stop α
  | some a => .ok a
  | none => .error .refused

inductive Form
  | operand
  | endOfSettings
  | help
  | switch (key : Key)
  | attached (key : Key) (value : Text)
  | detached (key : Key)
  | unknown
deriving DecidableEq, Repr

def Form.ofLong (s : Subcommand) (text : Text) : Form :=
  let name := text.takeWhile (· != '=')
  match text.dropWhile (· != '='), s.key? name with
  | [], some key => if key.takesValue then .detached key else .switch key
  | [], none => if name = "help".toList then .help else .unknown
  | _ :: value, some key => if key.takesValue then .attached key value else .unknown
  | _ :: _, none => .unknown

def Form.ofShort (s : Subcommand) : Text → Form
  | 'h' :: _ => .help
  | 'o' :: value =>
    if .output ∈ s.keys then
      match value with
      | [] => .detached .output
      | '=' :: value => .attached .output value
      | value => .attached .output value
    else .unknown
  | _ => .unknown

def Form.of (s : Subcommand) (argument : Text) : Form :=
  match argument with
  | ['-'] => .operand
  | ['-', '-'] => .endOfSettings
  | '-' :: '-' :: text => .ofLong s text
  | '-' :: text => .ofShort s text
  | _ => .operand

/-- A separate value never starts with a hyphen, unless it is one. -/
def mayBeValue (text : Text) : Bool := text == ['-'] || text.head? != some '-'

def path? (value : String) : Option String := if value = "" then none else some value

def layout? (value : String) : Option Layout := (Layout.ofName value).toOption

def fill? {α : Type} : Option α → Option α → Option (Option α)
  | none, some value => some (some value)
  | _, _ => none

structure Draft where
  file : Option String := none
  format : Option Layout := none
  source : Option Layout := none
  target : Option Layout := none
  output : Option String := none
  tagged : Bool := false
deriving DecidableEq, Repr

namespace Draft

def operand? (s : Subcommand) (d : Draft) (value : String) : Option Draft :=
  if s.takesFile then (fill? d.file (path? value)).map ({ d with file := · }) else none

def setting? (d : Draft) (key : Key) (value : String) : Option Draft :=
  match key with
  | .format => (fill? d.format (layout? value)).map ({ d with format := · })
  | .source => (fill? d.source (layout? value)).map ({ d with source := · })
  | .target => (fill? d.target (layout? value)).map ({ d with target := · })
  | .output => (fill? d.output (path? value)).map ({ d with output := · })
  | .tagged => none

def switch? (d : Draft) : Key → Option Draft
  | .tagged => if d.tagged then none else some { d with tagged := true }
  | _ => none

def scan (s : Subcommand) (d : Draft) : List String → Except Stop Draft
  | [] => .ok d
  | argument :: rest =>
    match Form.of s argument.toList with
    | .operand => do scan s (← orRefuse (d.operand? s argument)) rest
    | .endOfSettings => orRefuse (rest.foldlM (operand? s) d)
    | .help => .error .help
    | .switch key => do scan s (← orRefuse (d.switch? key)) rest
    | .attached key value => do scan s (← orRefuse (d.setting? key (String.ofList value))) rest
    | .detached key =>
      match rest with
      | [] => .error .refused
      | value :: rest =>
        if mayBeValue value.toList then do scan s (← orRefuse (d.setting? key value)) rest
        else .error .refused
    | .unknown => .error .refused

def command? (s : Subcommand) (d : Draft) : Option Command := do
  match s with
  | .disasm => return .disasm (← d.file) d.format
  | .asm => return .asm (← d.file) (d.format.getD .v1) d.output d.tagged
  | .convert => return .convert (← d.file) (← d.source) (← d.target) d.output
  | .constants => return .constants

end Draft

/-- Help is asked for by name, with or without a subcommand that it is about, or as a setting. -/
def isHelp : List String → Bool
  | ["help"] => true
  | ["help", name] => name == "help" || (Subcommand.ofName? name).isSome
  | argument :: _ => argument == "--help" || argument.toList.take 2 == ['-', 'h']
  | [] => false

def Command.parse (arguments : List String) : Except Stop Command :=
  if isHelp arguments then .error .help
  else
    match arguments with
    | [] => .error .refused
    | name :: rest => do
      let s ← orRefuse (Subcommand.ofName? name)
      let d ← Draft.scan s {} rest
      orRefuse (Draft.command? s d)

end Tribyte.Cli
