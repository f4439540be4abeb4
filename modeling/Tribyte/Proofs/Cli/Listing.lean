import Tribyte.Proofs.Assembly.RoundTrip
import Tribyte.Proofs.Cli.Detection

/-!
# Listings are source text

The header of a listing is a comment, and so is the offset behind an instruction. So a listing
assembles to the code it was made from, and the listing of a file to the bytes of the file, once the
tag that was taken off an image is put back.
-/

namespace Tribyte.Cli

theorem takeWhile_listing (l : Layout) (code : List Instruction) :
    (listing l code).takeWhile (· != '\n') = "; format ".toList ++ l.name.toList := by
  cases l <;> rfl

theorem lineFeed_not_mem_listing {l : Layout} {code : List Instruction} :
    ∀ line ∈ header l :: listingRows code, '\n' ∉ line := by
  refine List.forall_mem_cons.mpr ⟨?_, List.forall_mem_map.mpr ?_⟩
  · cases l <;> decide
  · rintro ⟨i, k⟩ -
    have htext : '\n' ∉ i.text := Line.not_mem_text (by decide) (by decide) i
    have hoffset : '\n' ∉ Text.hex 4 (Instruction.width * k) :=
      (Text.plain_hex 4 _).not_mem (by decide)
    simp [listingRow, List.rightpad, htext, hoffset]

theorem forall₂_listingRows {R : Text → Instruction → Prop}
    (h : ∀ i offset, R (listingRow i offset) i) (code : List Instruction) :
    List.Forall₂ R (listingRows code) code := by
  -- the relation is for any offset, so the rows can be paired with the code alone
  rw [listingRows, ← List.zipIdx_map_fst 0 code, List.forall₂_map_left_iff,
    List.forall₂_map_right_iff, List.zipIdx_map_fst, List.forall₂_same]
  exact fun indexed _ => h indexed.1 _

theorem reads_listing (l : Layout) (code : List Instruction) :
    List.Forall₂ Line.Reads (header l :: listingRows code) (none :: code.map some) := by
  refine .cons (.blank ⟨by simp, .inr ⟨_, rfl⟩⟩ .nil) ?_
  rw [List.forall₂_map_right_iff]
  refine forall₂_listingRows (fun i offset => ?_) code
  refine Line.reads_text (n := 20 - i.text.length) (.inr ⟨' ' :: Text.hex 4 offset, ?_⟩)
  rw [listingRow, List.rightpad, List.append_assoc]
  rfl

theorem assemble_listing (l : Layout) (code : List Instruction) :
    Assembly.assemble (listing l code) = .ok code :=
  Assembly.assemble_flatMap_append_lineFeed rfl lineFeed_not_mem_listing (reads_listing l code)
    (by simp [List.reduceOption])

variable {files : Files} {arguments : List String} {file : String} {l : Layout} {tagged : Bool}
  {bytes : List UInt8} {code : List Instruction}

theorem exists_listing_of_status {given : Option Layout} (hread : files.read file = .ok bytes)
    (h : ((Command.disasm file given).run files).status = 0) :
    ∃ (l : Layout) (body : List UInt8) (code : List Instruction),
      ListedAs given bytes l body ∧ Stream.decode l body = .ok code ∧
        ((Command.disasm file given).run files).stdout = Text.utf8 (listing l code) := by
  obtain ⟨warnings, l, body, hdetect, hlisted⟩ := exists_detects given bytes
  cases hcode : Stream.decode l body with
  | ok code => exact ⟨l, body, code, hlisted, hcode, (lists_run_disasm hread hdetect hcode).stdout⟩
  | error cause => exact absurd h (refuses_run_disasm hread hdetect hcode).status_ne_zero

theorem run_asm_of_ok (hcommand : Command.parse arguments = .ok (.asm file l none tagged))
    (hread : files.read file = .ok bytes) (h : sourceCode file bytes = .ok code) :
    run files arguments = ⟨0, codeFile l tagged code, [.assembled code.length], files⟩ := by
  have heval := eval_assembleFile_of_ok (w := { files }) hread h l none tagged
  rw [Fallible.eval_writeOutput_none] at heval
  rw [run_eq_of_parse hcommand, Command.run_of_ok (.asm file l none tagged) heval]
  simp [World.print, World.record]

theorem run_asm_of_error (hcommand : Command.parse arguments = .ok (.asm file l none tagged))
    (hread : files.read file = .ok bytes) {failure : Failure}
    (h : sourceCode file bytes = .error failure) :
    run files arguments = ⟨1, [], [.failed failure], files⟩ := by
  have heval := eval_assembleFile_of_error (w := { files }) hread h l none tagged
  rw [run_eq_of_parse hcommand, Command.run_of_error (.asm file l none tagged) heval]
  rfl

/-- What `disasm` prints names a layout in its first line, and `asm` with that layout turns it back
into the file, with a tag exactly if `disasm` found one. -/
theorem asm_disasm_eq_file {files : Files} {arguments : List String} {file : String}
    {given : Option Layout} {bytes : List UInt8}
    (hcommand : Command.parse arguments = .ok (.disasm file given))
    (hread : files.read file = .ok bytes) (hstatus : (run files arguments).status = 0) :
    ∃ (l : Layout) (text : Text), (run files arguments).stdout = Text.utf8 text ∧
      text.takeWhile (· != '\n') = "; format ".toList ++ l.name.toList ∧
      (∃ code, Assembly.assemble text = .ok code) ∧
      ∀ (later : Files) (again : List String) (source : String),
        Command.parse again =
          .ok (.asm source l none (given.isNone && Image.isImage bytes)) →
        later.read source = .ok (run files arguments).stdout →
        (run later again).status = 0 ∧ (run later again).stdout = bytes := by
  rw [run_eq_of_parse hcommand] at hstatus ⊢
  obtain ⟨l, body, code, hlisted, hcode, hstdout⟩ := exists_listing_of_status hread hstatus
  refine ⟨l, listing l code, hstdout, takeWhile_listing l code, ⟨code, assemble_listing l code⟩,
    ?_⟩
  intro later again source hagain hsource
  rw [hstdout] at hsource
  rw [run_asm_of_ok hagain hsource (sourceCode_utf8 (assemble_listing l code) source), codeFile,
    Image.toBytes, Stream.encode_of_decode hcode]
  exact ⟨rfl, hlisted.bytes_eq⟩

theorem asm_disasm_image :
    let image : Files := ⟨[("image", [2, 5, 0xC0, 4])]⟩
    let printed : Files := ⟨[("source", (run image ["disasm", "image"]).stdout)]⟩
    let again := run printed ["asm", "source", "--format=v2", "--tagged"]
    again.status = 0 ∧ again.stdout = [2, 5, 0xC0, 4] := by
  have hcommand : Command.parse ["disasm", "image"] = .ok (.disasm "image" none) := by decide
  have hread : Files.read ⟨[("image", [2, 5, 0xC0, 4])]⟩ "image" = .ok [2, 5, 0xC0, 4] := by decide
  have hstatus : (run ⟨[("image", [2, 5, 0xC0, 4])]⟩ ["disasm", "image"]).status = 0 := by decide
  have hprinted : (run ⟨[("image", [2, 5, 0xC0, 4])]⟩ ["disasm", "image"]).stdout =
      Text.utf8 (listing .v2 [⟨0xC0, 4, 5⟩]) := by decide
  obtain ⟨l, text, hstdout, hline, -, hagain⟩ := asm_disasm_eq_file hcommand hread hstatus
  have htext : text = listing .v2 [⟨0xC0, 4, 5⟩] := by
    have h := congrArg Text.ofUtf8? (hstdout.symm.trans hprinted)
    rwa [Text.ofUtf8?_utf8, Text.ofUtf8?_utf8, Option.some.injEq] at h
  cases l with
  | v1 =>
    rw [htext] at hline
    exact absurd hline (by decide)
  | v2 => exact hagain _ _ "source" (by decide) (by decide)

end Tribyte.Cli
