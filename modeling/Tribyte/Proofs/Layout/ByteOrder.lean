import Tribyte.Layout
import Tribyte.Proofs.Word.Field

/-!
# The byte order of a layout

Packing and unpacking go through shifts and masks of a 32-bit word. Their effect is a permutation
of bytes: the encoding of an instruction is its three parts in the order of the layout, and three
bytes are unpacked into the parts that the order names.
-/

namespace Tribyte

theorem Word.getLsbD_toBits (w : Word) (i : Nat) : w.toBits.getLsbD i = w.getLsbD i := by
  rw [toBits, BitVec.getLsbD_setWidth]
  by_cases h : i < 24
  · simp [show i < 32 by omega]
  · simp [BitVec.getLsbD_of_ge w i (by omega)]

theorem Word.getLsbD_ofBits (w : BitVec 32) (i : Nat) :
    (ofBits w).getLsbD i = (decide (i < 24) && w.getLsbD i) := by
  rw [ofBits, BitVec.getLsbD_setWidth]

theorem Instruction.ext_get {i j : Instruction} (h : ∀ s, i.get s = j.get s) : i = j :=
  Instruction.ext (h .op) (h .arg1) (h .arg2)

namespace Layout

/-- Which part of an instruction each of its bytes holds. -/
def order : Layout → List Slot
  | .v1 => [.op, .arg1, .arg2]
  | .v2 => [.arg2, .op, .arg1]

theorem field_width (l : Layout) (s : Slot) : (l.field s).width = 8 := by
  cases l <;> cases s <;> rfl

theorem field_offset_le (l : Layout) (s : Slot) : (l.field s).offset ≤ 16 := by
  cases l <;> cases s <;> decide

theorem field_apart (l : Layout) {s t : Slot} (h : s ≠ t) : (l.field s).Apart (l.field t) := by
  apply Field.Disjoint.apart
  cases l <;> cases s <;> cases t <;> first | contradiction | (simp [Field.Disjoint, field])

theorem get_unpack (l : Layout) (w : BitVec 32) (s : Slot) :
    (l.unpack w).get s = ⟨((l.field s).get w).setWidth 8⟩ := by
  cases s <;> rfl

theorem get_unpack_toBits (l : Layout) (w : Word) (s : Slot) :
    (l.unpack w.toBits).get s = ⟨w.extractLsb' (l.field s).offset 8⟩ := by
  rw [get_unpack, UInt8.ofBitVec.injEq]
  apply BitVec.eq_of_getLsbD_eq
  intro i hi
  rw [BitVec.getLsbD_setWidth, Field.getLsbD_get, Word.getLsbD_toBits, field_width,
    BitVec.getLsbD_extractLsb']
  simp [hi]

theorem toBytes_eq_order_map (l : Layout) (w : Word) :
    w.toBytes = l.order.map (l.unpack w.toBits).get := by
  cases l <;> simp only [order, List.map_cons, List.map_nil, get_unpack_toBits] <;> rfl

theorem order_map_unpack_ofBytes (l : Layout) (a b c : UInt8) :
    l.order.map (l.unpack (Word.ofBytes a b c).toBits).get = [a, b, c] := by
  rw [← toBytes_eq_order_map, Word.toBytes_ofBytes]

theorem get_toBits_ofBits (l : Layout) (s : Slot) (w : BitVec 32) :
    (l.field s).get (Word.ofBits w).toBits = (l.field s).get w := by
  apply BitVec.eq_of_getLsbD_eq
  intro i _
  have hw := field_width l s
  have ho := field_offset_le l s
  rw [Field.getLsbD_get, Field.getLsbD_get, Word.getLsbD_toBits, Word.getLsbD_ofBits]
  by_cases hi : i < (l.field s).width
  · simp [hi, show (l.field s).offset + i < 24 by omega]
  · simp [hi]

theorem get_pack (l : Layout) (i : Instruction) (s : Slot) :
    (l.field s).get (l.pack i).toBits =
      (l.field s).get ((l.field s).put ((i.get s).toBitVec.setWidth 32)) := by
  rw [pack, get_toBits_ofBits, Field.get_or, Field.get_or]
  cases s <;> simp [Field.get_put_of_apart, field_apart]

theorem unpack_pack (l : Layout) (i : Instruction) : l.unpack (l.pack i).toBits = i := by
  apply Instruction.ext_get
  intro s
  rw [get_unpack, get_pack, ← UInt8.toBitVec_inj]
  apply BitVec.eq_of_getLsbD_eq
  intro j hj
  rw [BitVec.getLsbD_setWidth, Field.getLsbD_get_put, BitVec.getLsbD_setWidth, field_width]
  simp [hj, show j < 32 by omega]

theorem encode_eq_order_map (l : Layout) (i : Instruction) : l.encode i = l.order.map i.get := by
  rw [encode, toBytes_eq_order_map l, unpack_pack]

theorem eq_of_order_map_eq {l : Layout} {i j : Instruction}
    (h : l.order.map i.get = l.order.map j.get) : i = j := by
  cases l <;> simp only [order, List.map_cons, List.map_nil, List.cons.injEq, and_true] at h
  · exact Instruction.ext h.1 h.2.1 h.2.2
  · exact Instruction.ext h.2.1 h.2.2 h.1

theorem encode_eq_iff {l : Layout} {i : Instruction} {a b c : UInt8} :
    l.encode i = [a, b, c] ↔ l.unpack (Word.ofBytes a b c).toBits = i := by
  rw [encode_eq_order_map, ← order_map_unpack_ofBytes l a b c]
  constructor
  · intro h
    exact (eq_of_order_map_eq h).symm
  · intro h
    subst h
    rfl

theorem encode_unpack_ofBytes (l : Layout) (a b c : UInt8) :
    l.encode (l.unpack (Word.ofBytes a b c).toBits) = [a, b, c] :=
  encode_eq_iff.mpr rfl

theorem exists_encode_eq (l : Layout) (i : Instruction) :
    ∃ a b c, l.encode i = [a, b, c] ∧ l.unpack (Word.ofBytes a b c).toBits = i :=
  ⟨_, _, _, rfl, encode_eq_iff.mp rfl⟩

end Layout

end Tribyte
