import Tribyte.Proofs.Cli.Effects
import Tribyte.Proofs.Stream.RoundTrip

/-!
# How a run ends

What each command comes to, by what it reads: effects that only log, and then its output or a
failure. A listing logs what it warns of, and beside that only events that are no warnings. A
command that breaks off has its failure logged last.
-/

namespace Tribyte.Cli

open Fallible

def Outcome.warnings (o : Outcome) : List Event := o.events.filter (·.level = .warn)

def listing (l : Layout) (code : List Instruction) : Text :=
  (header l :: listingRows code).flatMap (· ++ ['\n'])

def decodeEvents (l : Layout) (code : List Instruction) : List Event :=
  code.map (.decoded · l) ++ [.decodedStream code.length l]

/-- Prints a listing of the code in this layout, with these warnings and no others. -/
structure Outcome.Lists (o : Outcome) (warnings : List Event) (l : Layout)
    (code : List Instruction) : Prop where
  status : o.status = 0
  stdout : o.stdout = Text.utf8 (listing l code)
  warned : o.warnings = warnings

structure Outcome.Refuses (o : Outcome) (failure : Failure) : Prop where
  status : o.status = 1
  stdout : o.stdout = []
  logged : o.events.getLast? = some (.failed failure)

theorem Outcome.Refuses.status_ne_zero {o : Outcome} {failure : Failure} (h : o.Refuses failure) :
    o.status ≠ 0 := by
  rw [h.status]
  decide

/-- Without a failure this layout and this part of the bytes are found, with these warnings. -/
def Detects (given : Option Layout) (bytes : List UInt8) (warnings : List Event) (l : Layout)
    (body : List UInt8) : Prop :=
  ∀ w, (detect given bytes).run.eval w = (.ok (l, body), w.record warnings)

variable {files : Files} {arguments : List String} {command : Command} {file : String}
  {given : Option Layout} {bytes body : List UInt8} {l : Layout} {code : List Instruction}
  {warnings : List Event} {cause : Error} {w after : World}

theorem run_eq_of_parse (h : Command.parse arguments = .ok command) :
    run files arguments = command.run files := by
  rw [run, program, h]
  rfl

theorem Command.run_of_ok (command : Command)
    (h : command.body.run.eval { files } = (.ok (), after)) :
    command.run files = ⟨0, after.stdout.toList, after.events.toList, after.files⟩ := by
  rw [Command.run, Command.effects, Effects.outcome, Effects.eval_bind, h]
  rfl

theorem Command.run_of_error (command : Command) {failure : Failure}
    (h : command.body.run.eval { files } = (.error failure, after)) :
    command.run files =
      ⟨1, after.stdout.toList, after.events.toList ++ [.failed failure], after.files⟩ := by
  rw [Command.run, Command.effects, Effects.outcome, Effects.eval_bind, h]
  simp [exitStatus, Effects.eval, World.log]

theorem Command.refuses_of_error {failure : Failure} (events : List Event)
    (h : command.body.run.eval { files } = (.error failure, World.record { files } events)) :
    (command.run files).Refuses failure := by
  rw [Command.run_of_error command h]
  exact ⟨rfl, rfl, List.getLast?_concat⟩

theorem eval_decodeStream_of_ok (h : Stream.decode l bytes = .ok code) (w : World) :
    (decodeStream l bytes).run.eval w = (.ok code, w.record (decodeEvents l code)) := by
  have hscan : (Stream.scan l bytes).1 = code := Stream.scan_fst_of_decode h
  rw [decodeStream, hscan, eval_bind_of_ok (eval_forM_log _ code w),
    eval_bind_of_ok (eval_orFail_of_ok h _), eval_bind_of_ok (eval_log _ _), World.record_record]
  rfl

theorem eval_decodeStream_of_error (h : Stream.decode l bytes = .error cause) (w : World) :
    (decodeStream l bytes).run.eval w =
      (.error (.code cause), w.record ((Stream.scan l bytes).1.map (.decoded · l))) := by
  rw [decodeStream, eval_bind_of_ok (eval_forM_log _ _ w),
    eval_bind_of_error (eval_orFail_of_error h _)]

theorem eval_printListing_of_ok (hread : w.files.read file = .ok bytes)
    (hdetect : Detects given bytes warnings l body) (hcode : Stream.decode l body = .ok code) :
    (printListing file given).run.eval w =
      (.ok (), (w.record (warnings ++ decodeEvents l code)).print
        (Text.utf8 (listing l code))) := by
  rw [printListing, eval_bind_of_ok (eval_readFile_of_ok hread), eval_bind_of_ok (hdetect w),
    eval_bind_of_ok (eval_decodeStream_of_ok hcode _), eval_bind_of_ok (eval_printLine _ _),
    eval_forM_printLine, World.print_print, World.record_record]
  simp [listing, Text.utf8]

theorem eval_printListing_of_error (hread : w.files.read file = .ok bytes)
    (hdetect : Detects given bytes warnings l body)
    (herror : Stream.decode l body = .error cause) :
    (printListing file given).run.eval w =
      (.error (.code cause),
        w.record (warnings ++ (Stream.scan l body).1.map (.decoded · l))) := by
  rw [printListing, eval_bind_of_ok (eval_readFile_of_ok hread), eval_bind_of_ok (hdetect w),
    eval_bind_of_error (eval_decodeStream_of_error herror _), World.record_record]

theorem filter_warn_decodeEvents (l : Layout) (code : List Instruction) :
    (decodeEvents l code).filter (·.level = .warn) = [] := by
  simp [decodeEvents, Event.level]

theorem lists_run_disasm (hread : files.read file = .ok bytes)
    (hdetect : Detects given bytes warnings l body) (hcode : Stream.decode l body = .ok code) :
    ((Command.disasm file given).run files).Lists (warnings.filter (·.level = .warn)) l code := by
  have heval := eval_printListing_of_ok (w := { files }) hread hdetect hcode
  rw [Command.run_of_ok (.disasm file given) heval]
  refine ⟨rfl, ?_, ?_⟩
  · simp [World.print, World.record]
  · simp [Outcome.warnings, World.print, World.record, filter_warn_decodeEvents]

theorem refuses_run_disasm (hread : files.read file = .ok bytes)
    (hdetect : Detects given bytes warnings l body)
    (herror : Stream.decode l body = .error cause) :
    ((Command.disasm file given).run files).Refuses (.code cause) :=
  Command.refuses_of_error _ (eval_printListing_of_error hread hdetect herror)

def sameEvents (source target : Layout) : List Event :=
  if source = target then [.sameLayout source] else []

theorem eval_warnIfSame (source target : Layout) (w : World) :
    (warnIfSame source target).run.eval w = (.ok (), w.record (sameEvents source target)) := by
  unfold warnIfSame sameEvents
  split
  · rfl
  · rw [World.record_nil]
    rfl

theorem eval_convertFile_of_ok {source : Layout} (hread : w.files.read file = .ok bytes)
    (hcode : Stream.decode source bytes = .ok code) (target : Layout) (output : Option String) :
    (convertFile file source target output).run.eval w =
      (writeOutput output (Stream.encode target code)).run.eval
        (w.record (sameEvents source target ++ decodeEvents source code ++
          [.transcoding source target code.length])) := by
  have hread' : (w.record (sameEvents source target)).files.read file = .ok bytes := hread
  rw [convertFile, eval_bind_of_ok (eval_warnIfSame source target w),
    eval_bind_of_ok (eval_readFile_of_ok hread'),
    eval_bind_of_ok (eval_decodeStream_of_ok hcode _), eval_bind_of_ok (eval_log _ _),
    World.record_record, World.record_record, List.append_assoc]

theorem eval_convertFile_of_error {source : Layout} (hread : w.files.read file = .ok bytes)
    (herror : Stream.decode source bytes = .error cause) (target : Layout)
    (output : Option String) :
    (convertFile file source target output).run.eval w =
      (.error (.code cause), w.record (sameEvents source target ++
        (Stream.scan source bytes).1.map (.decoded · source))) := by
  have hread' : (w.record (sameEvents source target)).files.read file = .ok bytes := hread
  rw [convertFile, eval_bind_of_ok (eval_warnIfSame source target w),
    eval_bind_of_ok (eval_readFile_of_ok hread'),
    eval_bind_of_error (eval_decodeStream_of_error herror _), World.record_record]

/-- The program that a file is the source of, or why there is none. -/
def sourceCode (file : String) (bytes : List UInt8) : Except Failure (List Instruction) :=
  match Text.ofUtf8? bytes with
  | none => .error (.unreadable file .notUtf8)
  | some source => (Assembly.assemble source).mapError .code

theorem sourceCode_utf8 {source : Text} (h : Assembly.assemble source = .ok code) (file : String) :
    sourceCode file (Text.utf8 source) = .ok code := by
  rw [sourceCode, Text.ofUtf8?_utf8]
  simp only [h, Except.mapError]

theorem eval_assembleFile_of_ok (hread : w.files.read file = .ok bytes)
    (hcode : sourceCode file bytes = .ok code) (l : Layout) (output : Option String)
    (tagged : Bool) :
    (assembleFile file l output tagged).run.eval w =
      (writeOutput output (codeFile l tagged code)).run.eval
        (w.record [.assembled code.length]) := by
  rw [sourceCode] at hcode
  cases htext : Text.ofUtf8? bytes with
  | none => simp [htext] at hcode
  | some source =>
    cases hsource : Assembly.assemble source with
    | error cause => simp [htext, hsource, Except.mapError] at hcode
    | ok read =>
      obtain rfl : read = code := by simpa [htext, hsource, Except.mapError] using hcode
      rw [assembleFile, eval_bind_of_ok (eval_readText_of_ok hread htext),
        eval_bind_of_ok (eval_orFail_of_ok hsource w), eval_bind_of_ok (eval_log _ w)]

theorem eval_assembleFile_of_error {failure : Failure} (hread : w.files.read file = .ok bytes)
    (herror : sourceCode file bytes = .error failure) (l : Layout) (output : Option String)
    (tagged : Bool) :
    (assembleFile file l output tagged).run.eval w = (.error failure, w) := by
  rw [sourceCode] at herror
  cases htext : Text.ofUtf8? bytes with
  | none =>
    obtain rfl : .unreadable file .notUtf8 = failure := by simpa [htext] using herror
    rw [assembleFile, eval_bind_of_error (eval_readText_of_none hread htext)]
  | some source =>
    cases hsource : Assembly.assemble source with
    | ok code => simp [htext, hsource, Except.mapError] at herror
    | error cause =>
      obtain rfl : .code cause = failure := by
        simpa [htext, hsource, Except.mapError] using herror
      rw [assembleFile, eval_bind_of_ok (eval_readText_of_ok hread htext),
        eval_bind_of_error (eval_orFail_of_error hsource w)]

theorem Command.refuses_of_source_error {failure : Failure} (hread : files.read file = .ok bytes)
    (herror : sourceCode file bytes = .error failure) (l : Layout) (output : Option String)
    (tagged : Bool) : ((Command.asm file l output tagged).run files).Refuses failure := by
  have heval := eval_assembleFile_of_error (w := { files }) hread herror l output tagged
  rw [← World.record_nil { files }] at heval
  exact Command.refuses_of_error [] heval

theorem Command.refuses_of_read_error {failure : FileError} (hinput : command.input? = some file)
    (hread : files.read file = .error failure) :
    (command.run files).Refuses (.unreadable file failure) := by
  have hstart (events : List Event) : (World.record { files } events).files.read file =
      .error failure := hread
  cases command with
  | constants => contradiction
  | disasm _ given =>
    obtain rfl := Option.some.inj hinput
    refine Command.refuses_of_error [] ?_
    rw [Command.body, printListing, World.record_nil,
      eval_bind_of_error (eval_readFile_of_error hread)]
  | asm _ l output tagged =>
    obtain rfl := Option.some.inj hinput
    refine Command.refuses_of_error [] ?_
    rw [Command.body, assembleFile, World.record_nil,
      eval_bind_of_error (eval_readText_of_error hread)]
  | convert _ source target output =>
    obtain rfl := Option.some.inj hinput
    refine Command.refuses_of_error (sameEvents source target) ?_
    rw [Command.body, convertFile, eval_bind_of_ok (eval_warnIfSame source target _),
      eval_bind_of_error (eval_readFile_of_error (hstart _))]

end Tribyte.Cli
