import Tribyte.Proofs.Assembly.Source
import Tribyte.Proofs.Text.Hexadecimal

/-!
# Printed instructions read back

The text of an instruction has three tokens, an opcode and two operands of its own bytes, whatever
spaces and comment stand behind it. So every printed program assembles to itself.
-/

namespace Tribyte

theorem Instruction.text_eq (i : Instruction) :
    i.text = i.opcodeText ++ ' ' :: (Text.hexByte i.arg1 ++ ' ' :: Text.hexByte i.arg2) := by
  rw [text, List.append_assoc]
  rfl

theorem Token.opcode_opcodeText (i : Instruction) : Opcode i.opcodeText i.op := by
  unfold Instruction.opcodeText
  cases h : i.mnemonic? with
  | some name => exact .name ⟨(name, i.op), Table.mem_of_nameOf? h, rfl, rfl⟩
  | none => exact .numeral (numeral?_hexByte i.op)

theorem Token.operand_hexByte (b : UInt8) : Operand (Text.hexByte b) b := by
  have hbar : '|' ∉ Text.hexByte b := (Text.plain_hex 2 b.toNat).not_mem (by decide)
  refine ⟨[Text.hexByte b], [b], Text.pieces_iff.mpr (List.splitOn_eq_singleton hbar), ?_, ?_, ?_⟩
  · simp [Text.hexByte, Text.hex]
  · exact .cons (.numeral (numeral?_hexByte b)) .nil
  · simp

def Text.IsWord (t : Text) : Prop := t ≠ [] ∧ Plain t

instance (t : Text) : Decidable t.IsWord := inferInstanceAs (Decidable (_ ∧ _))

theorem Text.isWord_hexByte (b : UInt8) : IsWord (hexByte b) :=
  ⟨by simp [hexByte, hex], plain_hex 2 b.toNat⟩

theorem Instruction.isWord_opcodeText (i : Instruction) : i.opcodeText.IsWord := by
  unfold opcodeText
  cases h : i.mnemonic? with
  | some name =>
    have hall : ∀ entry ∈ Constants.opcode.entries, Text.IsWord entry.1.toList := by decide
    exact hall (name, i.op) (Table.mem_of_nameOf? h)
  | none => exact Text.isWord_hexByte i.op

namespace Line

theorem separates_space : Separates ' ' := .inr (by decide)

theorem not_separates_of_isPlain {c : Char} (h : Text.IsPlain c) : ¬ Separates c := by
  intro h
  rcases h with rfl | hblank
  · exact absurd h (by decide)
  · rw [h.isBlank_eq_false] at hblank
    contradiction

theorem runs_replicate_space (n : Nat) : Runs (List.replicate n ' ') [] := by
  induction n with
  | zero => exact .nil
  | succ n ih => exact .separator separates_space ih

theorem Runs.word {word rest : Text} {runs : List Text} (h : word.IsWord)
    (hrest : ∀ c ∈ rest.head?, c = ' ') (hruns : Runs rest runs) :
    Runs (word ++ rest) (word :: runs) := by
  refine .run h.1 (fun c hc => not_separates_of_isPlain (h.2 c hc)) (fun c hc => ?_) hruns
  rw [hrest c hc]
  exact separates_space

theorem head?_replicate_space (n : Nat) : ∀ c ∈ (List.replicate n ' ').head?, c = ' ' := by
  cases n <;> simp [List.replicate_succ]

theorem runs_text (i : Instruction) (n : Nat) :
    Runs (i.text ++ List.replicate n ' ')
      [i.opcodeText, Text.hexByte i.arg1, Text.hexByte i.arg2] := by
  rw [Instruction.text_eq, List.append_assoc, List.cons_append, List.append_assoc,
    List.cons_append]
  refine .word i.isWord_opcodeText (by simp) (.separator separates_space ?_)
  refine .word (Text.isWord_hexByte i.arg1) (by simp) (.separator separates_space ?_)
  exact .word (Text.isWord_hexByte i.arg2) (head?_replicate_space n) (runs_replicate_space n)

theorem not_mem_text {c : Char} (hc : ¬ Text.IsPlain c) (hspace : c ≠ ' ') (i : Instruction) :
    c ∉ i.text := by
  have hop : c ∉ i.opcodeText := i.isWord_opcodeText.2.not_mem hc
  have hbyte (b : UInt8) : c ∉ Text.hexByte b := (Text.plain_hex 2 b.toNat).not_mem hc
  simp [Instruction.text_eq, hop, hbyte, hspace]

theorem reads_text {line : Text} {i : Instruction} {n : Nat}
    (h : line = i.text ++ List.replicate n ' ' ∨
      ∃ comment, line = i.text ++ List.replicate n ' ' ++ ';' :: comment) :
    Reads line (some i) := by
  have hsemi : ';' ∉ i.text ++ List.replicate n ' ' := by
    simp [not_mem_text (c := ';') (by decide) (by decide)]
  exact .instruction ⟨hsemi, h⟩ (runs_text i n) (Token.opcode_opcodeText i)
    (Token.operand_hexByte i.arg1) (Token.operand_hexByte i.arg2)

theorem reads_nil : Reads [] none := .blank ⟨by simp, .inl rfl⟩ .nil

end Line

namespace Assembly

theorem assemble_flatMap_append_lineFeed {source : Text} {lines : List Text}
    {values : List (Option Instruction)} {code : List Instruction}
    (hsource : source = lines.flatMap (· ++ ['\n'])) (hfree : ∀ line ∈ lines, '\n' ∉ line)
    (hreads : List.Forall₂ Line.Reads lines values) (hcode : values.reduceOption = code) :
    assemble source = .ok code := by
  refine assemble_eq_ok_iff.mpr ⟨values ++ [none], ?_, ?_⟩
  · -- behind the last line feed there is one more line, an empty one
    rw [hsource, Text.splitOn_flatMap_append_mark hfree]
    exact List.rel_append hreads (.cons Line.reads_nil .nil)
  · rw [List.reduceOption_append, hcode]
    simp [List.reduceOption]

theorem assemble_disassemble (code : List Instruction) :
    assemble (disassemble code) = .ok code := by
  have hlines : disassemble code = (code.map Instruction.text).flatMap (· ++ ['\n']) := by
    rw [disassemble, List.flatMap_map]
  have hfree : ∀ line ∈ code.map Instruction.text, '\n' ∉ line := by
    intro line hline
    obtain ⟨i, -, rfl⟩ := List.mem_map.mp hline
    exact Line.not_mem_text (by decide) (by decide) i
  have hreads : List.Forall₂ Line.Reads (code.map Instruction.text) (code.map some) := by
    rw [List.forall₂_map_left_iff, List.forall₂_map_right_iff, List.forall₂_same]
    exact fun i _ => Line.reads_text (n := 0) (.inl (by simp))
  exact assemble_flatMap_append_lineFeed hlines hfree hreads (by simp [List.reduceOption])

end Assembly

end Tribyte
