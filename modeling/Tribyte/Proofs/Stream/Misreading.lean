import Tribyte.Proofs.Stream.RoundTrip

/-!
# Streams read in another layout

The bytes of a stream do not tell its layout, and whole instructions can be read in either. What was
written in one layout and is read in the other has the parts of every instruction moved round by one
place. That goes unseen only in a program whose instructions each repeat one byte, and such programs
are also all that have the same bytes in both layouts.
-/

namespace Tribyte

def Instruction.Uniform (i : Instruction) : Prop := i.op = i.arg1 ∧ i.arg1 = i.arg2

namespace Layout

/-- What an instruction that was written in the layout `source` is read as in `target`. -/
def misread (source target : Layout) (i : Instruction) : Instruction :=
  match source, target with
  | .v1, .v2 => ⟨i.arg1, i.arg2, i.op⟩
  | .v2, .v1 => ⟨i.arg2, i.op, i.arg1⟩
  | .v1, .v1 | .v2, .v2 => i

variable {source target : Layout}

theorem encode_misread (source target : Layout) (i : Instruction) :
    target.encode (misread source target i) = source.encode i := by
  rw [encode_eq_order_map, encode_eq_order_map]
  cases source <;> cases target <;> rfl

theorem misread_eq_self_iff (h : source ≠ target) {i : Instruction} :
    misread source target i = i ↔ i.Uniform := by
  rw [Instruction.ext_iff, Instruction.Uniform]
  cases source with
  | v1 =>
    cases target with
    | v1 => contradiction
    | v2 =>
      constructor
      · rintro ⟨hop, harg1, -⟩
        exact ⟨hop.symm, harg1.symm⟩
      · rintro ⟨hop, harg1⟩
        exact ⟨hop.symm, harg1.symm, hop.trans harg1⟩
  | v2 =>
    cases target with
    | v1 =>
      constructor
      · rintro ⟨-, harg1, harg2⟩
        exact ⟨harg1, harg2⟩
      · rintro ⟨hop, harg1⟩
        exact ⟨(hop.trans harg1).symm, hop, harg1⟩
    | v2 => contradiction

end Layout

namespace Stream

variable {source target : Layout} {code : List Instruction}

theorem encode_map_misread (source target : Layout) (code : List Instruction) :
    encode target (code.map (Layout.misread source target)) = encode source code := by
  induction code with
  | nil => rfl
  | cons i code ih =>
    rw [List.map_cons, encode_cons, encode_cons, Layout.encode_misread, ih]

theorem decode_encode_eq_misread (source target : Layout) (code : List Instruction) :
    decode target (encode source code) = .ok (code.map (Layout.misread source target)) :=
  decode_eq_ok_iff.mpr (encode_map_misread source target code)

theorem map_misread_eq_self_iff (h : source ≠ target) :
    code.map (Layout.misread source target) = code ↔ ∀ i ∈ code, i.Uniform := by
  have hsame : code.map (Layout.misread source target) = code.map id ↔
      ∀ i ∈ code, Layout.misread source target i = id i := List.map_inj_left
  rw [List.map_id] at hsame
  rw [hsame]
  exact forall₂_congr fun i _ => Layout.misread_eq_self_iff h

theorem decode_encode_eq_ok_self_iff (h : source ≠ target) :
    decode target (encode source code) = .ok code ↔ ∀ i ∈ code, i.Uniform := by
  rw [decode_encode_eq_misread, Except.ok.injEq, map_misread_eq_self_iff h]

theorem encode_eq_encode_iff (h : source ≠ target) :
    encode source code = encode target code ↔ ∀ i ∈ code, i.Uniform := by
  rw [← decode_encode_eq_ok_self_iff h, decode_eq_ok_iff, eq_comm]

/-- A program has the same bytes in both layouts exactly if each of its instructions is one byte
three times. Read in the wrong layout, the bytes of any program are whole instructions again, with
their parts moved round one way or the other, and the same program in that one case only. -/
theorem encode_agree_iff_and_misread (code : List Instruction) :
    (encode .v1 code = encode .v2 code ↔ ∀ i ∈ code, i.op = i.arg1 ∧ i.arg1 = i.arg2) ∧
    decode .v2 (encode .v1 code) = .ok (code.map fun i => ⟨i.arg1, i.arg2, i.op⟩) ∧
    decode .v1 (encode .v2 code) = .ok (code.map fun i => ⟨i.arg2, i.op, i.arg1⟩) ∧
    (decode .v2 (encode .v1 code) = .ok code ↔ ∀ i ∈ code, i.op = i.arg1 ∧ i.arg1 = i.arg2) ∧
    (decode .v1 (encode .v2 code) = .ok code ↔ ∀ i ∈ code, i.op = i.arg1 ∧ i.arg1 = i.arg2) := by
  have hforth : Layout.v1 ≠ Layout.v2 := by decide
  exact ⟨encode_eq_encode_iff hforth, decode_encode_eq_misread .v1 .v2 code,
    decode_encode_eq_misread .v2 .v1 code, decode_encode_eq_ok_self_iff hforth,
    decode_encode_eq_ok_self_iff hforth.symm⟩

end Stream

end Tribyte
