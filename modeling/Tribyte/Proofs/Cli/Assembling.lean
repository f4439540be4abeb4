import Tribyte.Proofs.Cli.Listing

/-!
# What `asm` writes, and what the other commands make of it

Whether a file assembles does not depend on the layout or on the tag; only the bytes that are
written do. A tag is put in front of the same code that is written without it, code of one layout
converts to the code of another, and either file is listed as the program that was assembled.
-/

namespace Tribyte

namespace Cli

variable {files : Files} {arguments : List String} {file : String} {l : Layout} {tagged : Bool}
  {bytes : List UInt8}

theorem run_convert_encode {target : Layout} {code : List Instruction}
    (hcommand : Command.parse arguments = .ok (.convert file l target none))
    (hread : files.read file = .ok (Stream.encode l code)) :
    (run files arguments).status = 0 ∧
      (run files arguments).stdout = Stream.encode target code := by
  have heval := eval_convertFile_of_ok (w := { files }) hread (Stream.decode_encode l code) target
    none
  rw [Fallible.eval_writeOutput_none] at heval
  rw [run_eq_of_parse hcommand, Command.run_of_ok (.convert file l target none) heval]
  exact ⟨rfl, by simp [World.print, World.record]⟩

/-- Three ways to write the program of a file: as bare code in two layouts, and with a tag. All fail
with the same failure, or all succeed; then the tag stands in front of the code that is written
without it, and the code in one layout converts to the code in the other. -/
theorem asm_outputs_agree {f g : Layout} {plain image other : List String}
    (hplain : Command.parse plain = .ok (.asm file f none false))
    (himage : Command.parse image = .ok (.asm file f none true))
    (hother : Command.parse other = .ok (.asm file g none false))
    (hread : files.read file = .ok bytes) :
    (∃ failure, sourceCode file bytes = .error failure ∧
      ∀ arguments ∈ [plain, image, other],
        run files arguments = ⟨1, [], [.failed failure], files⟩) ∨
    ∃ code, sourceCode file bytes = .ok code ∧
      (∀ arguments ∈ [plain, image, other], (run files arguments).status = 0) ∧
      (run files plain).stdout = Stream.encode f code ∧
      (run files image).stdout = f.tag :: (run files plain).stdout ∧
      ∀ (later : Files) (again : List String) (stream : String),
        Command.parse again = .ok (.convert stream f g none) →
        later.read stream = .ok (run files plain).stdout →
        (run later again).status = 0 ∧ (run later again).stdout = (run files other).stdout := by
  cases h : sourceCode file bytes with
  | error failure =>
    refine .inl ⟨failure, rfl, ?_⟩
    simp only [List.forall_mem_cons]
    exact ⟨run_asm_of_error hplain hread h, run_asm_of_error himage hread h,
      run_asm_of_error hother hread h, by simp⟩
  | ok code =>
    have hrun := run_asm_of_ok hplain hread h
    have hrunImage := run_asm_of_ok himage hread h
    have hrunOther := run_asm_of_ok hother hread h
    refine .inr ⟨code, rfl, ?_, ?_, ?_, fun later again stream hagain hstream => ?_⟩
    · simp [hrun, hrunImage, hrunOther]
    · rw [hrun]
      rfl
    · rw [hrun, hrunImage]
      rfl
    · rw [hrun] at hstream
      rw [hrunOther]
      exact run_convert_encode hagain hstream

theorem asm_outputs_agree_two_lines :
    let files : Files := ⟨[("source", Text.utf8 "imm a 5 ; first\nadd a|b, 0x2".toList)]⟩
    let plain := run files ["asm", "source"]
    let image := run files ["asm", "source", "--tagged"]
    let other := run files ["asm", "source", "--format=v2"]
    let again := run ⟨[("stream", plain.stdout)]⟩ ["convert", "stream", "--from=v1", "--to=v2"]
    plain.stdout = [0x01, 0x10, 5, 0x80, 0x12, 2] ∧ image.stdout = 1 :: plain.stdout ∧
      again.status = 0 ∧ again.stdout = other.stdout := by
  intro files plain image other again
  have hread : files.read "source" =
      .ok (Text.utf8 "imm a 5 ; first\nadd a|b, 0x2".toList) := by decide
  have hsource : sourceCode "source" (Text.utf8 "imm a 5 ; first\nadd a|b, 0x2".toList) =
      .ok [⟨0x01, 0x10, 5⟩, ⟨0x80, 0x12, 2⟩] := sourceCode_utf8 (by decide) _
  have hplain : Command.parse ["asm", "source"] = .ok (.asm "source" .v1 none false) := by decide
  have himage : Command.parse ["asm", "source", "--tagged"] =
      .ok (.asm "source" .v1 none true) := by decide
  have hother : Command.parse ["asm", "source", "--format=v2"] =
      .ok (.asm "source" .v2 none false) := by decide
  rcases asm_outputs_agree hplain himage hother hread with
    ⟨failure, hfailure, -⟩ | ⟨code, hcode, -, h⟩
  · rw [hsource] at hfailure
    contradiction
  · obtain rfl := Except.ok.inj (hsource.symm.trans hcode)
    obtain ⟨hcodeOut, himageOut, hagain⟩ := h
    have hstream : Files.read ⟨[("stream", plain.stdout)]⟩ "stream" = .ok plain.stdout := by
      rfl
    exact ⟨hcodeOut, himageOut, hagain _ _ "stream" (by decide) hstream⟩

theorem pieces_listing (l : Layout) (code : List Instruction) :
    Text.Pieces '\n' (listing l code)
      (("; format ".toList ++ l.name.toList) :: listingRows code ++ [[]]) := by
  rw [Text.pieces_iff, listing, Text.splitOn_flatMap_append_mark lineFeed_not_mem_listing]
  rfl

theorem trimEnd_append_replicate (t : Text) (n : Nat) :
    Text.trimEnd (t ++ List.replicate n ' ') = t.trimEnd := by
  induction n with
  | zero => rw [List.replicate_zero, List.append_nil]
  | succ n ih =>
    rw [List.replicate_succ', ← List.append_assoc, Text.trimEnd,
      List.rdropWhile_concat_pos _ _ _ (by decide)]
    exact ih

theorem trimEnd_append_word {word : Text} (h : word.IsWord) (t : Text) :
    Text.trimEnd (t ++ word) = t ++ word := by
  rw [Text.trimEnd, List.rdropWhile_eq_self_iff]
  intro hne
  rw [List.getLast_append_of_ne_nil hne h.1, (h.2 _ (List.getLast_mem h.1)).isBlank_eq_false]
  decide

theorem trimEnd_text (i : Instruction) : i.text.trimEnd = i.text := by
  rw [Instruction.text, List.append_cons]
  exact trimEnd_append_word (Text.isWord_hexByte i.arg2) _

theorem takeWhile_listingRow (i : Instruction) (offset : Nat) :
    (listingRow i offset).takeWhile (· != ';') =
      i.text ++ List.replicate (20 - i.text.length) ' ' := by
  refine Line.cut_iff.mp ⟨?_, .inr ⟨' ' :: Text.hex 4 offset, ?_⟩⟩
  · simp [Line.not_mem_text (c := ';') (by decide) (by decide)]
  · rw [listingRow, List.rightpad, List.append_assoc]
    rfl

theorem trimEnd_takeWhile_listingRow (i : Instruction) (offset : Nat) :
    Text.trimEnd ((listingRow i offset).takeWhile (· != ';')) = i.text := by
  rw [takeWhile_listingRow, trimEnd_append_replicate, trimEnd_text]

/-- What was assembled is listed, from an image whose layout is found by the tag or from bare code
whose layout is given, with the same text and for the image without a warning. The text has the
header and then a line for each instruction, which shows it in front of a comment. -/
theorem disasm_asm_eq_listing {source : Text} {code : List Instruction} {image plain : List String}
    (himage : Command.parse image = .ok (.asm file l none true))
    (hplain : Command.parse plain = .ok (.asm file l none false))
    (hread : files.read file = .ok (Text.utf8 source))
    (hcode : Assembly.assemble source = .ok code) :
    (run files image).status = 0 ∧ (run files plain).status = 0 ∧
    ∃ (text : Text) (rows : List Text),
      (∀ (later : Files) (again : List String) (input : String),
        Command.parse again = .ok (.disasm input none) →
        later.read input = .ok (run files image).stdout →
        (run later again).status = 0 ∧ (run later again).warnings = [] ∧
          (run later again).stdout = Text.utf8 text) ∧
      (∀ (later : Files) (again : List String) (input : String),
        Command.parse again = .ok (.disasm input (some l)) →
        later.read input = .ok (run files plain).stdout →
        (run later again).status = 0 ∧ (run later again).stdout = Text.utf8 text) ∧
      Text.Pieces '\n' text (("; format ".toList ++ l.name.toList) :: rows ++ [[]]) ∧
      List.Forall₂ (fun row i => Text.trimEnd (row.takeWhile (· != ';')) = i.text) rows code := by
  have hsource := sourceCode_utf8 hcode file
  have hrunImage := run_asm_of_ok himage hread hsource
  have hrunPlain := run_asm_of_ok hplain hread hsource
  have hdecode := Stream.decode_encode l code
  rw [hrunImage, hrunPlain]
  refine ⟨rfl, rfl, listing l code, listingRows code, ?_, ?_, pieces_listing l code,
    forall₂_listingRows trimEnd_takeWhile_listingRow code⟩
  · intro later again input hagain hinput
    rw [run_eq_of_parse hagain]
    have hlists := lists_run_disasm hinput (detects_toBytes ⟨l, code⟩) hdecode
    exact ⟨hlists.status, hlists.warned, hlists.stdout⟩
  · intro later again input hagain hinput
    rw [run_eq_of_parse hagain]
    have hlists := lists_run_disasm hinput (detects_given l _) hdecode
    exact ⟨hlists.status, hlists.stdout⟩

theorem disasm_asm_eq_listing_v2 :
    let files : Files := ⟨[("source", Text.utf8 "; two lines\njmp lt|eq, d\n3 0 255".toList)]⟩
    let image := run files ["asm", "source", "--format=v2", "--tagged"]
    let plain := run files ["asm", "source", "--format=v2"]
    let later : Files := ⟨[("image", image.stdout), ("plain", plain.stdout)]⟩
    let found := run later ["disasm", "image"]
    let given := run later ["disasm", "plain", "--format=v2"]
    image.status = 0 ∧ plain.status = 0 ∧ found.status = 0 ∧ found.warnings = [] ∧
      given.status = 0 ∧ found.stdout = given.stdout := by
  intro files image plain later found given
  have hread : files.read "source" =
      .ok (Text.utf8 "; two lines\njmp lt|eq, d\n3 0 255".toList) := by decide
  have hcode : Assembly.assemble "; two lines\njmp lt|eq, d\n3 0 255".toList =
      .ok [⟨0x40, 0x18, 0x01⟩, ⟨0x03, 0, 255⟩] := by decide
  have himage : Command.parse ["asm", "source", "--format=v2", "--tagged"] =
      .ok (.asm "source" .v2 none true) := by decide
  have hplain : Command.parse ["asm", "source", "--format=v2"] =
      .ok (.asm "source" .v2 none false) := by decide
  obtain ⟨himageStatus, hplainStatus, text, rows, hfound, hgiven, -⟩ :=
    disasm_asm_eq_listing himage hplain hread hcode
  obtain ⟨hstatus, hwarnings, hstdout⟩ := hfound later ["disasm", "image"] "image" (by decide) rfl
  obtain ⟨hstatus', hstdout'⟩ :=
    hgiven later ["disasm", "plain", "--format=v2"] "plain" (by decide) rfl
  exact ⟨himageStatus, hplainStatus, hstatus, hwarnings, hstatus', hstdout.trans hstdout'.symm⟩

end Cli

end Tribyte
