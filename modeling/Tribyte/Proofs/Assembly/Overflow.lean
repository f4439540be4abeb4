import Tribyte.Proofs.Assembly.Malformed

/-!
# Numbers that do not fit in a byte

A literal above 255 is refused wherever it stands. Below the bound of a 32-bit word it is reported
as too wide for a byte, with any number of zeros in front. From that bound on it is reported as a
malformed number, although nothing is wrong with its form.
-/

namespace Tribyte

open Numeral

theorem Numeral.literal_of_total {mark digits : Text} {base v : Nat} (hmark : BaseMark mark base)
    (hne : digits ≠ [])
    (hread : ((Text.lower digits).mapM (digit? base)).map (total base) = some v) :
    Literal (mark ++ digits) v := by
  obtain ⟨values, hvalues, rfl⟩ := Option.map_eq_some_iff.mp hread
  refine ⟨mark, base, digits, hmark, ⟨hne, values, ?_, total_eq_ofDigits base values⟩, rfl⟩
  exact (mapM_digit?_lower_eq_some_iff hmark.base_le).mp hvalues

theorem Token.faulty_of_literal {token : Text} {v : Nat} (h : Literal token v) (hwide : 255 < v) :
    Faulty token (if v < UInt32.size then .tooWide token else .malformedNumber token) := by
  have hbyte : ¬ v < 256 := by omega
  have hread := numeral?_of_literal h
  rw [if_neg hbyte] at hread
  cases token with
  | nil => contradiction
  | cons c rest => exact faulty_of_numeral? hread

theorem Token.Faulty.fault_eq {token : Text} {fault other : Fault} (h : Faulty token fault)
    (hother : Faulty token other) : fault = other :=
  Except.error.inj (h.opcode.symm.trans hother.opcode)

namespace Assembly

/-- Of a literal that stands for more than a byte, the value decides what is reported, and not the
number of its digits: too wide below the bound of a 32-bit word, malformed from there on. -/
theorem assemble_wideLiteral {token : Text} {v : Nat} (h : Literal token v) (hwide : 255 < v) :
    (Reports token (.tooWide token) ↔ v < UInt32.size) ∧
    (Reports token (.malformedNumber token) ↔ UInt32.size ≤ v) := by
  have hfault := Token.faulty_of_literal h hwide
  by_cases hv : v < UInt32.size
  · rw [if_pos hv] at hfault
    refine ⟨iff_of_true (reports_of_faulty hfault) hv,
      iff_of_false (fun hreports => ?_) (Nat.not_le.mpr hv)⟩
    have hsame := hfault.fault_eq hreports.faulty
    contradiction
  · rw [if_neg hv] at hfault
    refine ⟨iff_of_false (fun hreports => ?_) hv,
      iff_of_true (reports_of_faulty hfault) (Nat.not_lt.mp hv)⟩
    have hsame := hfault.fault_eq hreports.faulty
    contradiction

theorem assemble_wideLiteral_bounds :
    let below := "0x0000FFFFFFFF".toList
    let above := "4294967296".toList
    Literal below 4294967295 ∧ Literal above 4294967296 ∧
    assemble "imm a 1\nadd a lt|0x0000FFFFFFFF|x ; b".toList =
      .error (.source 2 (.tooWide below)) ∧
    assemble "4294967296 a 1".toList = .error (.source 1 (.malformedNumber above)) := by
  intro below above
  have hmark : BaseMark ['0', 'x'] 16 := .hexadecimal (.inl rfl)
  have hbelow : Literal below 4294967295 := literal_of_total hmark (by decide) (by decide)
  have habove : Literal above 4294967296 := literal_of_total .decimal (by decide) (by decide)
  have hterm : Line.Reaches "add a lt|0x0000FFFFFFFF|x ; b".toList below := by
    have hpart : Token.ReachesTerm "lt|0x0000FFFFFFFF|x".toList below :=
      ⟨["lt".toList], ["x".toList], [0x08], Text.pieces_iff.mpr (by decide), by decide,
        .cons (.jumpCondition ⟨("lt", 0x08), by decide, rfl, rfl⟩) .nil⟩
    have hruns : Line.Runs "add a lt|0x0000FFFFFFFF|x ".toList
        ["add".toList, "a".toList, "lt|0x0000FFFFFFFF|x".toList] :=
      Line.runs_iff.mpr (by decide)
    have hop : Token.Opcode "add".toList 0x80 := .name ⟨("add", 0x80), by decide, rfl, rfl⟩
    have harg1 : Token.Operand "a".toList 0x10 := Token.operand_eq_ok_iff.mp (by decide)
    exact .third (Line.cut_iff.mpr (by decide)) hruns hop harg1 hpart
  have hopcode : Line.Reaches "4294967296 a 1".toList above := by
    have hruns : Line.Runs "4294967296 a 1".toList [above, "a".toList, "1".toList] :=
      Line.runs_iff.mpr (by decide)
    exact .opcode (Line.cut_iff.mpr (by decide)) hruns
  have hlow := (assemble_wideLiteral hbelow (by decide)).1.mpr (by decide)
  have hhigh := (assemble_wideLiteral habove (by decide)).2.mpr (by decide)
  refine ⟨hbelow, habove, ?_, ?_⟩
  · refine hlow.reported _ 1 _ (by decide) hterm fun j hj earlier hearlier => ?_
    obtain rfl : j = 0 := by omega
    obtain rfl : "imm a 1".toList = earlier := Option.some.inj hearlier
    exact Line.conforms_iff.mpr ⟨some ⟨0x01, 0x10, 1⟩, by decide⟩
  · exact hhigh.reported _ 0 _ (by decide) hopcode fun j hj => absurd hj (Nat.not_lt_zero j)

/-- The literal is well formed, and yet its form is what is reported. -/
theorem assemble_longLiteral :
    let token := "4294967296".toList
    (∃ v, Literal token v ∧ 255 < v) ∧ ¬ Token.Faulty token (.tooWide token) ∧
    assemble "imm a 4294967296".toList = .error (.source 1 (.malformedNumber token)) := by
  intro token
  have hliteral : Literal token 4294967296 := literal_of_total .decimal (by decide) (by decide)
  refine ⟨⟨4294967296, hliteral, by decide⟩, ?_, by decide⟩
  intro h
  exact absurd h.opcode (by decide)

end Assembly

end Tribyte
