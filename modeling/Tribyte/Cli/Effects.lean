import Tribyte.Cli.Log

/-!
# Effects on the world

A command reads and writes files, prints, and logs, one effect after the other, and goes on by the
answers to what it reads and writes. The world keeps what was done to it, also if the command breaks
off later: whether a failure comes before all output is a matter of the order of the effects. All
that is printed is taken, and a write that fails leaves the files as they were.
-/

namespace Tribyte.Cli

inductive Effects (α : Type)
  | done (value : α)
  | log (event : Event) (next : Effects α)
  | print (bytes : List UInt8) (next : Effects α)
  | read (path : String) (next : Except FileError (List UInt8) → Effects α)
  | write (path : String) (bytes : List UInt8) (next : Except FileError Unit → Effects α)

structure World where
  files : Files
  stdout : Array UInt8 := #[]
  events : Array Event := #[]

namespace World

def print (w : World) (bytes : List UInt8) : World := { w with stdout := w.stdout ++ bytes }

def log (w : World) (event : Event) : World := { w with events := w.events.push event }

def write (w : World) (path : String) (bytes : List UInt8) : Except FileError Unit × World :=
  match w.files.write path bytes with
  | .ok files => (.ok (), { w with files })
  | .error cause => (.error cause, w)

end World

namespace Effects

variable {α β : Type}

def bind : Effects α → (α → Effects β) → Effects β
  | done value, f => f value
  | log event next, f => log event (next.bind f)
  | print bytes next, f => print bytes (next.bind f)
  | read path next, f => read path fun answer => (next answer).bind f
  | write path bytes next, f => write path bytes fun answer => (next answer).bind f

instance : Monad Effects where
  pure := done
  bind := bind

def eval : Effects α → World → α × World
  | done value, w => (value, w)
  | log event next, w => next.eval (w.log event)
  | print bytes next, w => next.eval (w.print bytes)
  | read path next, w => (next (w.files.read path)).eval w
  | write path bytes next, w => (next (w.write path bytes).1).eval (w.write path bytes).2

end Effects

/-- Effects that can break off with a failure. What was done up to then stays done. -/
abbrev Fallible := ExceptT Failure Effects

namespace Fallible

def log (event : Event) : Fallible Unit := ExceptT.lift (.log event (.done ()))

def printLine (line : Text) : Fallible Unit :=
  ExceptT.lift (.print (Text.utf8 (line ++ ['\n'])) (.done ()))

def orFail {α : Type} : Except Error α → Fallible α
  | .ok a => return a
  | .error cause => throw (.code cause)

def readFile (path : String) : Fallible (List UInt8) := do
  match ← ExceptT.lift (.read path .done) with
  | .ok bytes => return bytes
  | .error cause => throw (.unreadable path cause)

def readText (path : String) : Fallible Text := do
  match Text.ofUtf8? (← readFile path) with
  | some text => return text
  | none => throw (.unreadable path .notUtf8)

def writeOutput (path? : Option String) (bytes : List UInt8) : Fallible Unit := do
  match path? with
  | none => ExceptT.lift (.print bytes (.done ()))
  | some path =>
    match ← ExceptT.lift (.write path bytes .done) with
    | .ok () => log (.wrote bytes.length path)
    | .error cause => throw (.unwritable path cause)

end Fallible

end Tribyte.Cli
