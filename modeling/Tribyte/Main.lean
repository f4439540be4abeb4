import Tribyte.Cli.Run

/-!
# The program

Does what the command line asks for in the working directory, and logs to the standard error. The
environment variable `TRIBYTE_LOG` names the log level; without it, warnings and notices are logged.
-/

namespace Tribyte.Cli

def fileError : IO.Error → FileError
  | .noFileOrDirectory .. => .notFound
  | .inappropriateType _ code _ =>
    if code = 20 then .notDirectory else .isDirectory
  | cause => .other (toString cause)

def answer {α : Type} (request : IO α) : IO (Except FileError α) := do
  try return .ok (← request)
  catch cause => return .error (fileError cause)

def readBytes (path : String) : IO (List UInt8) := do
  return (← IO.FS.readBinFile path).data.toList

def Effects.perform {α : Type} (verbosity : Nat) : Effects α → IO α
  | .done value => return value
  | .log event next => do
    for line in logLines verbosity [event] do
      IO.eprintln line
    next.perform verbosity
  | .print bytes next => do
    (← IO.getStdout).write bytes.toByteArray
    next.perform verbosity
  | .read path next => do
    (next (← answer (readBytes path))).perform verbosity
  | .write path bytes next => do
    (next (← answer (IO.FS.writeBinFile path bytes.toByteArray))).perform verbosity

end Tribyte.Cli

open Tribyte.Cli in
def main (arguments : List String) : IO UInt32 := do
  let status ← (program arguments).perform (verbosity (← IO.getEnv "TRIBYTE_LOG"))
  if status = 2 then
    IO.eprint usage
  return UInt32.ofNat status
