import Tribyte.Proofs.Cli.Assembling
import Tribyte.Proofs.Stream.Readout

/-!
# Listings as an index of the code

The offset in a row of a listing is made from the number of the row, and reading the code at this
offset gives the instruction that the row shows. No text of an instruction reaches the column of the
semicolon, and behind it the offset takes as many digits as it needs.
-/

namespace Tribyte

theorem Instruction.length_opcodeText_le (i : Instruction) : i.opcodeText.length ≤ 4 := by
  unfold opcodeText
  cases h : i.mnemonic? with
  | some name =>
    have hall : ∀ entry ∈ Constants.opcode.entries, entry.1.toList.length ≤ 4 := by decide
    exact hall (name, i.op) (Table.mem_of_nameOf? h)
  | none => exact (Text.length_hexByte i.op).le

theorem Instruction.length_text_le (i : Instruction) : i.text.length ≤ 14 := by
  have hop := i.length_opcodeText_le
  rw [text_eq]
  simp only [List.length_append, List.length_cons, Text.length_hexByte]
  omega

namespace Cli

def rowOffset? (row : Text) : Option Nat :=
  match row.dropWhile (· != ';') with
  | ';' :: ' ' :: digits => Text.ofHex? digits
  | _ => none

/-- The row names this offset and shows the instruction that is read there. Its semicolon stands in
column 21, and it is as long as with four digits exactly if these are enough for the offset. -/
structure Indexes (row : Text) (l : Layout) (memory : List UInt8) (offset : Nat) : Prop where
  named : rowOffset? row = some offset
  shown : ∃ i, l.readHead (memory.drop offset) = .ok (i, Instruction.width) ∧
    Text.trimEnd (row.takeWhile (· != ';')) = i.text
  column : row.idxOf? ';' = some 20
  length : row.length = 28 ↔ offset ≤ 0xffff

theorem listingRow_eq (i : Instruction) (offset : Nat) :
    listingRow i offset = (listingRow i offset).takeWhile (· != ';') ++
      ';' :: ' ' :: Text.hex 4 offset := by
  rw [takeWhile_listingRow, listingRow, List.rightpad, List.append_assoc]
  rfl

theorem dropWhile_listingRow (i : Instruction) (offset : Nat) :
    (listingRow i offset).dropWhile (· != ';') = ';' :: ' ' :: Text.hex 4 offset := by
  have hsplit : (listingRow i offset).takeWhile (· != ';') ++
      (listingRow i offset).dropWhile (· != ';') = listingRow i offset :=
    List.takeWhile_append_dropWhile
  exact List.append_cancel_left (hsplit.trans (listingRow_eq i offset))

theorem length_takeWhile_listingRow (i : Instruction) (offset : Nat) :
    ((listingRow i offset).takeWhile (· != ';')).length = 20 := by
  have htext := i.length_text_le
  rw [takeWhile_listingRow, List.length_append, List.length_replicate]
  omega

theorem idxOf?_listingRow (i : Instruction) (offset : Nat) :
    (listingRow i offset).idxOf? ';' = some 20 := by
  have hfront : ';' ∉ (listingRow i offset).takeWhile (· != ';') := fun hmem => by
    simpa using List.mem_takeWhile_imp hmem
  rw [listingRow_eq, Text.idxOf?_append_cons_self hfront, length_takeWhile_listingRow]

theorem length_listingRow (i : Instruction) (offset : Nat) :
    (listingRow i offset).length = 24 + max 4 (Nat.toDigits 16 offset).length := by
  rw [listingRow_eq, List.length_append, length_takeWhile_listingRow, List.length_cons,
    List.length_cons, Text.length_hex]
  omega

theorem indexes_listingRow {l : Layout} {memory : List UInt8} {i : Instruction} {offset : Nat}
    (h : l.readHead (memory.drop offset) = .ok (i, Instruction.width)) :
    Indexes (listingRow i offset) l memory offset where
  named := by
    rw [rowOffset?, dropWhile_listingRow]
    exact Text.ofHex?_hex 4 offset
  shown := ⟨i, h, trimEnd_takeWhile_listingRow i offset⟩
  column := idxOf?_listingRow i offset
  length := by
    have hdigits : (Nat.toDigits 16 offset).length ≤ 4 ↔ offset < 16 ^ 4 :=
      Nat.length_toDigits_le_iff (by decide) (by decide)
    rw [length_listingRow]
    omega

theorem exists_rows_of_decode {l : Layout} {memory : List UInt8} {code : List Instruction}
    (h : Stream.decode l memory = .ok code) :
    ∃ rows, Text.Pieces '\n' (listing l code)
        (("; format ".toList ++ l.name.toList) :: rows ++ [[]]) ∧
      rows.length = memory.length / 3 ∧
      ∀ k row, rows[k]? = some row → Indexes row l memory (Instruction.width * k) := by
  refine ⟨_, pieces_listing l code, ?_, fun k row hrow => ?_⟩
  · have hlength := Stream.length_encode l code
    rw [Stream.encode_of_decode h] at hlength
    rw [listingRows, List.length_map, List.length_zipIdx]
    omega
  · rw [listingRows, List.getElem?_map, List.getElem?_zipIdx, Nat.zero_add, Option.map_map] at hrow
    obtain ⟨i, hi, rfl⟩ := Option.map_eq_some_iff.mp hrow
    exact indexes_listingRow (Stream.readHead_of_decode h hi)

/-- A listing that was printed has its header and then one row for every three bytes of the code,
and the row with the number `k` names the offset three times `k` and shows what is read there. -/
theorem disasm_rows_index_code {files : Files} {arguments : List String} {file : String}
    {given : Option Layout} {bytes : List UInt8}
    (hcommand : Command.parse arguments = .ok (.disasm file given))
    (hread : files.read file = .ok bytes) (hstatus : (run files arguments).status = 0) :
    ∃ (l : Layout) (memory : List UInt8) (text : Text) (rows : List Text),
      ListedAs given bytes l memory ∧ (run files arguments).stdout = Text.utf8 text ∧
      Text.Pieces '\n' text (("; format ".toList ++ l.name.toList) :: rows ++ [[]]) ∧
      rows.length = memory.length / 3 ∧
      ∀ k row, rows[k]? = some row → Indexes row l memory (3 * k) := by
  rw [run_eq_of_parse hcommand] at hstatus ⊢
  obtain ⟨l, memory, code, hlisted, hcode, hstdout⟩ := exists_listing_of_status hread hstatus
  obtain ⟨rows, hrows⟩ := exists_rows_of_decode hcode
  exact ⟨l, memory, listing l code, rows, hlisted, hstdout, hrows⟩

theorem disasm_rows_index_code_fifthDigit :
    let code : List UInt8 := List.replicate 65541 8
    let files : Files := ⟨[("image", 2 :: code)]⟩
    (run files ["disasm", "image"]).status = 0 ∧ ∃ (text : Text) (rows : List Text),
      (run files ["disasm", "image"]).stdout = Text.utf8 text ∧
      Text.Pieces '\n' text ("; format v2".toList :: rows ++ [[]]) ∧ rows.length = 21847 ∧
      ∃ row, rows[21846]? = some row ∧ Indexes row .v2 code 0x10002 ∧ row.length ≠ 28 := by
  intro code files
  have hlength : code.length = 65541 := List.length_replicate
  have hcommand : Command.parse ["disasm", "image"] = .ok (.disasm "image" none) := by decide
  have hread : files.read "image" = .ok (2 :: code) := rfl
  have himage : Image.isImage (2 :: code) = true :=
    Image.isImage_cons.mpr ⟨⟨.v2, rfl⟩, by rw [hlength]; decide⟩
  have hstatus : (run files ["disasm", "image"]).status = 0 := by
    obtain ⟨image, -, hlists⟩ := (isImage_iff_lists hread).mp himage
    rw [run_eq_of_parse hcommand]
    exact hlists.status
  obtain ⟨l, memory, text, rows, hlisted, hstdout, hpieces, hrows, hindexes⟩ :=
    disasm_rows_index_code hcommand hread hstatus
  obtain ⟨htag, rfl⟩ := List.cons.inj (hlisted.eq_of_isImage himage)
  obtain rfl : l = .v2 := by
    cases l with
    | v1 => exact absurd htag (by decide)
    | v2 => rfl
  rw [hlength] at hrows
  obtain ⟨row, hrow⟩ : ∃ row, rows[21846]? = some row :=
    ⟨_, List.getElem?_eq_getElem (by omega)⟩
  have hlast := hindexes 21846 row hrow
  refine ⟨hstatus, text, rows, hstdout, hpieces, hrows, row, hrow, hlast, fun hshort => ?_⟩
  have hsmall := hlast.length.mp hshort
  omega

end Cli

end Tribyte
