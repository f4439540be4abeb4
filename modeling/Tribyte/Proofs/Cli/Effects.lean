import Tribyte.Cli.Run

/-!
# What effects come to

The value of effects and the world after them, for the single effects and for what is put together
from them. Effects that can break off are followed by the next ones only if they did not.
-/

namespace Tribyte.Cli

def World.record (w : World) (events : List Event) : World :=
  { w with events := w.events ++ events }

namespace World

variable (w : World)

@[simp] theorem record_nil : w.record [] = w := by
  simp [record]

@[simp] theorem record_record (first second : List Event) :
    (w.record first).record second = w.record (first ++ second) := by
  have h : w.events ++ first ++ second = w.events ++ (first ++ second) := Array.ext' (by simp)
  rw [record, record, record, h]

@[simp] theorem print_nil : w.print [] = w := by
  simp [print]

@[simp] theorem print_print (first second : List UInt8) :
    (w.print first).print second = w.print (first ++ second) := by
  have h : w.stdout ++ first ++ second = w.stdout ++ (first ++ second) := Array.ext' (by simp)
  rw [print, print, print, h]

end World

variable {α β : Type} {w after : World}

theorem Effects.eval_bind (a : Effects α) (f : α → Effects β) (w : World) :
    (a >>= f).eval w = (f (a.eval w).1).eval (a.eval w).2 := by
  change (a.bind f).eval w = _
  induction a generalizing w with
  | done value => rfl
  | log event next ih => exact ih _
  | print bytes next ih => exact ih _
  | read path next ih => exact ih _ _
  | write path bytes next ih => exact ih _ _

namespace Fallible

theorem eval_bind_of_ok {x : Fallible α} {a : α} (h : x.run.eval w = (.ok a, after))
    (f : α → Fallible β) : (x >>= f).run.eval w = (f a).run.eval after := by
  rw [ExceptT.run_bind, Effects.eval_bind, h]

theorem eval_bind_of_error {x : Fallible α} {failure : Failure}
    (h : x.run.eval w = (.error failure, after)) (f : α → Fallible β) :
    (x >>= f).run.eval w = (.error failure, after) := by
  rw [ExceptT.run_bind, Effects.eval_bind, h]
  rfl

theorem eval_bind_lift (a : Effects α) (f : α → Fallible β) (w : World) :
    (ExceptT.lift a >>= f).run.eval w = (f (a.eval w).1).run.eval (a.eval w).2 := by
  have h : (ExceptT.lift a : Fallible α).run.eval w = (.ok (a.eval w).1, (a.eval w).2) :=
    Effects.eval_bind a _ w
  rw [eval_bind_of_ok h]

theorem eval_log (event : Event) (w : World) :
    (log event).run.eval w = (.ok (), w.record [event]) := rfl

theorem eval_printLine (line : Text) (w : World) :
    (printLine line).run.eval w = (.ok (), w.print (Text.utf8 (line ++ ['\n']))) := rfl

/-- What was printed stays printed. -/
example (line : Text) (failure : Failure) (w : World) :
    (printLine line >>= fun _ => throw failure : Fallible Unit).run.eval w =
      (.error failure, w.print (Text.utf8 (line ++ ['\n']))) := rfl

theorem eval_forM_log (f : α → Event) (xs : List α) (w : World) :
    (forM xs fun x => log (f x) : Fallible PUnit).run.eval w = (.ok (), w.record (xs.map f)) := by
  induction xs generalizing w with
  | nil =>
    rw [List.map_nil, World.record_nil]
    rfl
  | cons x xs ih =>
    rw [List.forM_cons, eval_bind_of_ok (eval_log _ w), ih, World.record_record]
    rfl

theorem eval_forM_printLine (lines : List Text) (w : World) :
    (forM lines printLine).run.eval w =
      (.ok (), w.print (Text.utf8 (lines.flatMap (· ++ ['\n'])))) := by
  induction lines generalizing w with
  | nil =>
    rw [List.flatMap_nil, Text.utf8, List.flatMap_nil, World.print_nil]
    rfl
  | cons line lines ih =>
    rw [List.forM_cons, eval_bind_of_ok (eval_printLine line w), ih, World.print_print]
    simp [Text.utf8]

theorem eval_readFile_of_ok {path : String} {bytes : List UInt8}
    (h : w.files.read path = .ok bytes) : (readFile path).run.eval w = (.ok bytes, w) := by
  rw [readFile, eval_bind_lift, Effects.eval, h]
  rfl

theorem eval_readFile_of_error {path : String} {cause : FileError}
    (h : w.files.read path = .error cause) :
    (readFile path).run.eval w = (.error (.unreadable path cause), w) := by
  rw [readFile, eval_bind_lift, Effects.eval, h]
  rfl

theorem eval_readText_of_ok {path : String} {bytes : List UInt8} {text : Text}
    (h : w.files.read path = .ok bytes) (htext : Text.ofUtf8? bytes = some text) :
    (readText path).run.eval w = (.ok text, w) := by
  rw [readText, eval_bind_of_ok (eval_readFile_of_ok h), htext]
  rfl

theorem eval_readText_of_none {path : String} {bytes : List UInt8}
    (h : w.files.read path = .ok bytes) (htext : Text.ofUtf8? bytes = none) :
    (readText path).run.eval w = (.error (.unreadable path .notUtf8), w) := by
  rw [readText, eval_bind_of_ok (eval_readFile_of_ok h), htext]
  rfl

theorem eval_readText_of_error {path : String} {cause : FileError}
    (h : w.files.read path = .error cause) :
    (readText path).run.eval w = (.error (.unreadable path cause), w) := by
  rw [readText, eval_bind_of_error (eval_readFile_of_error h)]

theorem eval_orFail_of_ok {r : Except Error α} {a : α} (h : r = .ok a) (w : World) :
    (orFail r).run.eval w = (.ok a, w) := by
  rw [h]
  rfl

theorem eval_orFail_of_error {r : Except Error α} {cause : Error} (h : r = .error cause)
    (w : World) : (orFail r).run.eval w = (.error (.code cause), w) := by
  rw [h]
  rfl

theorem eval_writeOutput_none (bytes : List UInt8) (w : World) :
    (writeOutput none bytes).run.eval w = (.ok (), w.print bytes) := rfl

theorem eval_writeOutput_of_ok {path : String} {bytes : List UInt8} {files : Files}
    (h : w.files.write path bytes = .ok files) :
    (writeOutput (some path) bytes).run.eval w =
      (.ok (), { w with files }.record [.wrote bytes.length path]) := by
  rw [writeOutput, eval_bind_lift, Effects.eval, World.write, h]
  rfl

theorem eval_writeOutput_of_error {path : String} {bytes : List UInt8} {cause : FileError}
    (h : w.files.write path bytes = .error cause) :
    (writeOutput (some path) bytes).run.eval w = (.error (.unwritable path cause), w) := by
  rw [writeOutput, eval_bind_lift, Effects.eval, World.write, h]
  rfl

end Fallible

end Tribyte.Cli
