import Tribyte.Proofs.Cli.Caution
import Tribyte.Proofs.Cli.Detection
import Tribyte.Proofs.Stream.Transcoding
import Tribyte.Proofs.Traversal

/-!
# Commands that fail

A command rejects its input file or makes its whole output out of it. So a run ends with another
status than 0 exactly if it was refused for its arguments, rejected its input, or could not write
the one file it was to write. Every command being cautious, it has then printed nothing and left all
files as they were.
-/

namespace Tribyte.Cli

/-- The output of a command whose input is as it should be, and the file that it goes to. -/
inductive Command.Makes (files : Files) : Command → Option String → List UInt8 → Prop
  | constants :
      Makes files .constants none
        (Text.utf8 ((Constants.tables.map tableLine).flatMap (· ++ ['\n'])))
  | stream {file : String} {l : Layout} {bytes : List UInt8} {code : List Instruction} :
      files.read file = .ok bytes → Stream.decode l bytes = .ok code →
      Makes files (.disasm file (some l)) none (Text.utf8 (listing l code))
  | untagged {file : String} {bytes : List UInt8} {code : List Instruction} :
      files.read file = .ok bytes → Stream.decode .v1 bytes = .ok code →
      Makes files (.disasm file none) none (Text.utf8 (listing .v1 code))
  | image {file : String} {image : Image} :
      files.read file = .ok image.toBytes →
      Makes files (.disasm file none) none (Text.utf8 (listing image.layout image.code))
  | asm {file : String} {l : Layout} {output : Option String} {tagged : Bool}
      {bytes : List UInt8} {source : Text} {code : List Instruction} :
      files.read file = .ok bytes → Text.ofUtf8? bytes = some source →
      Assembly.assemble source = .ok code →
      Makes files (.asm file l output tagged) output (codeFile l tagged code)
  | convert {file : String} {source target : Layout} {output : Option String}
      {bytes written : List UInt8} :
      files.read file = .ok bytes → Stream.transcode source target bytes = .ok written →
      Makes files (.convert file source target output) output written

inductive Command.Rejects (files : Files) : Command → Failure → Prop
  | unreadable {command : Command} {file : String} {cause : FileError} :
      command.input? = some file → files.read file = .error cause →
      Rejects files command (.unreadable file cause)
  | stream {command : Command} {file : String} {l : Layout} {bytes : List UInt8} :
      command.ReadsStream file l → files.read file = .ok bytes → ¬ 3 ∣ bytes.length →
      Rejects files command
        (.code (.truncated (bytes.length - bytes.length % 3) (bytes.length % 3)))
  | neither {file : String} {bytes : List UInt8} :
      files.read file = .ok bytes → ¬ Image.isImage bytes = true → ¬ 3 ∣ bytes.length →
      Rejects files (.disasm file none)
        (.code (.truncated (bytes.length - bytes.length % 3) (bytes.length % 3)))
  | notUtf8 {file : String} {l : Layout} {output : Option String} {tagged : Bool}
      {bytes : List UInt8} :
      files.read file = .ok bytes → Text.ofUtf8? bytes = none →
      Rejects files (.asm file l output tagged) (.unreadable file .notUtf8)
  | source {file : String} {l : Layout} {output : Option String} {tagged : Bool}
      {bytes : List UInt8} {source : Text} {cause : Error} :
      files.read file = .ok bytes → Text.ofUtf8? bytes = some source →
      Assembly.assemble source = .error cause →
      Rejects files (.asm file l output tagged) (.code cause)

inductive Command.Fails (files : Files) (command : Command) : Failure → Prop
  | input {failure : Failure} : command.Rejects files failure → Fails files command failure
  | unwritable {path : String} {bytes : List UInt8} {cause : FileError} :
      command.Makes files (some path) bytes → files.write path bytes = .error cause →
      Fails files command (.unwritable path cause)

variable {files : Files} {command : Command}

/-- Up to its output a command does nothing but log. -/
theorem Command.Makes.eval_eq {output : Option String} {bytes : List UInt8}
    (h : command.Makes files output bytes) :
    ∃ events, command.body.run.eval { files } =
      (Fallible.writeOutput output bytes).run.eval (World.record { files } events) := by
  cases h with
  | constants =>
    refine ⟨[], ?_⟩
    rw [World.record_nil]
    exact Fallible.eval_forM_printLine _ _
  | @stream file l bytes code hread hcode =>
    exact ⟨_, eval_printListing_of_ok hread (detects_given l bytes) hcode⟩
  | untagged hread hcode =>
    -- The one byte of the tag keeps a whole stream from being taken for an image.
    have hno : ¬ Image.isImage _ = true := fun himage =>
      Image.not_three_dvd_length himage (Stream.exists_decode_iff.mp ⟨_, hcode⟩)
    exact ⟨_, eval_printListing_of_ok hread (detects_of_not_isImage hno) hcode⟩
  | image hread =>
    exact ⟨_, eval_printListing_of_ok hread (detects_toBytes _) (Stream.decode_encode _ _)⟩
  | @asm file l output tagged bytes source code hread htext hcode =>
    have hsource : sourceCode file bytes = .ok code := by
      simp only [sourceCode, htext, hcode, Except.mapError]
    exact ⟨_, eval_assembleFile_of_ok hread hsource l output tagged⟩
  | @convert file source target output bytes written hread hwritten =>
    obtain ⟨code, hcode, rfl⟩ := Traversal.map_eq_ok_iff.mp hwritten
    exact ⟨_, eval_convertFile_of_ok hread hcode target output⟩

theorem Command.Rejects.refuses {failure : Failure} (h : command.Rejects files failure) :
    (command.run files).Refuses failure := by
  cases h with
  | unreadable hinput hread => exact Command.refuses_of_read_error hinput hread
  | stream hreads hread hlength =>
    exact hreads.refuses hread (Stream.decode_of_not_three_dvd hlength _)
  | neither hread hno hlength =>
    exact refuses_run_disasm hread (detects_of_not_isImage hno)
      (Stream.decode_of_not_three_dvd hlength .v1)
  | @notUtf8 file l output tagged bytes hread htext =>
    have hsource : sourceCode file bytes = .error (.unreadable file .notUtf8) := by
      simp only [sourceCode, htext]
    exact Command.refuses_of_source_error hread hsource l output tagged
  | @source file l output tagged bytes source cause hread htext herror =>
    have hsource : sourceCode file bytes = .error (.code cause) := by
      simp only [sourceCode, htext, herror, Except.mapError]
    exact Command.refuses_of_source_error hread hsource l output tagged

theorem Command.makes_or_rejects (files : Files) (command : Command) :
    (∃ output bytes, command.Makes files output bytes) ∨
      ∃ failure, command.Rejects files failure := by
  cases command with
  | constants => exact .inl ⟨_, _, .constants⟩
  | disasm file given =>
    cases hread : files.read file with
    | error cause => exact .inr ⟨_, .unreadable rfl hread⟩
    | ok bytes =>
      by_cases hlength : 3 ∣ bytes.length
      · cases given with
        | some l =>
          obtain ⟨code, hcode⟩ := Stream.exists_decode_of_three_dvd (l := l) hlength
          exact .inl ⟨_, _, .stream hread hcode⟩
        | none =>
          obtain ⟨code, hcode⟩ := Stream.exists_decode_of_three_dvd (l := .v1) hlength
          exact .inl ⟨_, _, .untagged hread hcode⟩
      · cases given with
        | some l => exact .inr ⟨_, .stream .disasm hread hlength⟩
        | none =>
          by_cases himage : Image.isImage bytes = true
          · obtain ⟨image, rfl⟩ := Image.isImage_iff.mp himage
            exact .inl ⟨_, _, .image hread⟩
          · exact .inr ⟨_, .neither hread himage hlength⟩
  | asm file l output tagged =>
    cases hread : files.read file with
    | error cause => exact .inr ⟨_, .unreadable rfl hread⟩
    | ok bytes =>
      cases htext : Text.ofUtf8? bytes with
      | none => exact .inr ⟨_, .notUtf8 hread htext⟩
      | some source =>
        cases hcode : Assembly.assemble source with
        | error cause => exact .inr ⟨_, .source hread htext hcode⟩
        | ok code => exact .inl ⟨_, _, .asm hread htext hcode⟩
  | convert file source target output =>
    cases hread : files.read file with
    | error cause => exact .inr ⟨_, .unreadable rfl hread⟩
    | ok bytes =>
      by_cases hlength : 3 ∣ bytes.length
      · obtain ⟨code, rfl⟩ := Stream.exists_encode_of_three_dvd source hlength
        exact .inl ⟨_, _, .convert hread (Stream.transcode_encode source target code)⟩
      · exact .inr ⟨_, .stream (.convert target output) hread hlength⟩

theorem Command.Makes.run_of_none {bytes : List UInt8} (h : command.Makes files none bytes) :
    ∃ events, command.run files = ⟨0, bytes, events, files⟩ := by
  obtain ⟨events, heval⟩ := h.eval_eq
  rw [Fallible.eval_writeOutput_none] at heval
  rw [Command.run_of_ok command heval]
  exact ⟨events, by simp [World.print, World.record]⟩

theorem Command.Makes.run_of_write {path : String} {bytes : List UInt8} {written : Files}
    (h : command.Makes files (some path) bytes) (hwrite : files.write path bytes = .ok written) :
    ∃ events, command.run files = ⟨0, [], events, written⟩ := by
  obtain ⟨events, heval⟩ := h.eval_eq
  rw [Fallible.eval_writeOutput_of_ok hwrite] at heval
  rw [Command.run_of_ok command heval]
  exact ⟨_, rfl⟩

theorem Command.Fails.refuses {failure : Failure} (h : command.Fails files failure) :
    (command.run files).Refuses failure := by
  cases h with
  | input hrejects => exact hrejects.refuses
  | unwritable hmakes hwrite =>
    obtain ⟨events, heval⟩ := hmakes.eval_eq
    rw [Fallible.eval_writeOutput_of_error hwrite] at heval
    exact Command.refuses_of_error events heval

theorem status_run_ne_zero_iff :
    (command.run files).status ≠ 0 ↔ ∃ failure, command.Fails files failure := by
  constructor
  · intro h
    rcases command.makes_or_rejects files with ⟨output, bytes, hmakes⟩ | ⟨failure, hrejects⟩
    · cases output with
      | none =>
        obtain ⟨events, hrun⟩ := hmakes.run_of_none
        exact absurd (congrArg Outcome.status hrun) h
      | some path =>
        cases hwrite : files.write path bytes with
        | error cause => exact ⟨_, .unwritable hmakes hwrite⟩
        | ok written =>
          obtain ⟨events, hrun⟩ := hmakes.run_of_write hwrite
          exact absurd (congrArg Outcome.status hrun) h
    · exact ⟨failure, .input hrejects⟩
  · intro h
    obtain ⟨failure, hfails⟩ := h
    exact hfails.refuses.status_ne_zero

theorem run_of_status_ne_zero {arguments : List String} (h : (run files arguments).status ≠ 0) :
    (run files arguments).stdout = [] ∧ (run files arguments).files = files := by
  rcases (cautious_program arguments).eval { files } with hgood | ⟨hstdout, hfiles⟩
  · exact absurd hgood h
  · exact ⟨congrArg Array.toList hstdout, hfiles⟩

/-- A run fails exactly if its arguments are refused or its command fails, and then nothing is
printed and every file is as it was. -/
theorem run_fails_iff_and_leaves_files (files : Files) (arguments : List String) :
    ((run files arguments).status ≠ 0 ↔
      Command.parse arguments = .error .refused ∨
        ∃ command failure, Command.parse arguments = .ok command ∧
          command.Fails files failure) ∧
    ((run files arguments).status ≠ 0 →
      (run files arguments).stdout = [] ∧ (run files arguments).files = files) := by
  refine ⟨?_, run_of_status_ne_zero⟩
  cases hparse : Command.parse arguments with
  | error stop =>
    cases stop <;> simp [run, program, hparse, Effects.outcome, Effects.eval]
  | ok command =>
    rw [run_eq_of_parse hparse, status_run_ne_zero_iff]
    simp

theorem run_fails_iff_and_leaves_files_badLine :
    let files : Files := ⟨[("in", Text.utf8 "imm a 1\nimm q 1".toList), ("out", [7])]⟩
    let outcome := run files ["asm", "in", "-o", "out"]
    outcome.status ≠ 0 ∧ outcome.stdout = [] ∧ outcome.files = files := by
  intro files outcome
  have hcommand : Command.parse ["asm", "in", "-o", "out"] =
      .ok (.asm "in" .v1 (some "out") false) := by decide
  have hread : files.read "in" = .ok (Text.utf8 "imm a 1\nimm q 1".toList) := by decide
  have hsource : Assembly.assemble "imm a 1\nimm q 1".toList =
      .error (.source 2 (.unknownOperand "q".toList)) := by decide
  have htheorem := run_fails_iff_and_leaves_files files ["asm", "in", "-o", "out"]
  have hstatus : outcome.status ≠ 0 :=
    htheorem.1.mpr (.inr ⟨_, _, hcommand, .input (.source hread (Text.ofUtf8?_utf8 _) hsource)⟩)
  exact ⟨hstatus, htheorem.2 hstatus⟩

end Tribyte.Cli
