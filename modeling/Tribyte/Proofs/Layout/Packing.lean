import Tribyte.Proofs.Layout.ByteOrder

/-!
# Packing an instruction into a word

The three fields of a layout share out the low 24 bits of a machine word, eight each, and leave the
top byte alone. So a word can be packed again from what was unpacked, and nothing of a field is lost
where it is narrowed to a byte.
-/

namespace Tribyte

namespace Word

theorem toNat_toBits (w : Word) : w.toBits.toNat = w.toNat := by
  rw [toBits, BitVec.toNat_setWidth_of_le (by decide)]

theorem toNat_ofBits (w : BitVec 32) : (ofBits w).toNat = w.toNat % 2 ^ 24 := by
  rw [ofBits, BitVec.toNat_setWidth]

theorem exists_ofBytes (w : Word) : ∃ a b c, w.toBytes = [a, b, c] ∧ ofBytes a b c = w := by
  refine ⟨_, _, _, rfl, ?_⟩
  have hhigh : w.extractLsb' 16 8 ++ w.extractLsb' 8 8 = w.extractLsb' 8 16 :=
    BitVec.extractLsb'_append_extractLsb'_eq_extractLsb' (by decide)
  have hword : w.extractLsb' 8 16 ++ w.extractLsb' 0 8 = w.extractLsb' 0 24 :=
    BitVec.extractLsb'_append_extractLsb'_eq_extractLsb' (by decide)
  calc ofBytes ⟨w.extractLsb' 16 8⟩ ⟨w.extractLsb' 8 8⟩ ⟨w.extractLsb' 0 8⟩
      = w.extractLsb' 16 8 ++ w.extractLsb' 8 8 ++ w.extractLsb' 0 8 := rfl
    _ = w.extractLsb' 0 24 := by rw [hhigh, hword]
    _ = w := BitVec.extractLsb'_eq_self

end Word

namespace Layout

theorem unpack_toBits_ofBits (l : Layout) (w : BitVec 32) :
    l.unpack (Word.ofBits w).toBits = l.unpack w := by
  apply Instruction.ext_get
  intro s
  rw [get_unpack, get_unpack, get_toBits_ofBits]

theorem pack_unpack_toBits (l : Layout) (w : Word) : l.pack (l.unpack w.toBits) = w := by
  obtain ⟨a, b, c, -, rfl⟩ := w.exists_ofBytes
  obtain ⟨a', b', c', hbytes, hword⟩ :=
    (l.pack (l.unpack (Word.ofBytes a b c).toBits)).exists_ofBytes
  have hsame : [a', b', c'] = [a, b, c] := hbytes.symm.trans (l.encode_unpack_ofBytes a b c)
  cases hsame
  exact hword.symm

theorem pack_unpack (l : Layout) (w : BitVec 32) : l.pack (l.unpack w) = Word.ofBits w := by
  rw [← unpack_toBits_ofBits, pack_unpack_toBits]

theorem get_eq_of_mod_eq (l : Layout) (s : Slot) {w w' : BitVec 32}
    (h : w.toNat % 2 ^ 24 = w'.toNat % 2 ^ 24) : (l.field s).get w = (l.field s).get w' := by
  have hlow : Word.ofBits w = Word.ofBits w' := by
    apply BitVec.eq_of_toNat_eq
    rw [Word.toNat_ofBits, Word.toNat_ofBits, h]
  rw [← get_toBits_ofBits, hlow, get_toBits_ofBits]

theorem toNat_get_lt (l : Layout) (s : Slot) (w : BitVec 32) :
    ((l.field s).get w).toNat < 256 := by
  have h := (l.field s).toNat_get_lt w
  rwa [field_width] at h

theorem toNat_get_unpack (l : Layout) (s : Slot) (w : BitVec 32) :
    ((l.unpack w).get s).toNat = ((l.field s).get w).toNat := by
  rw [get_unpack]
  exact (BitVec.toNat_setWidth _ _).trans (Nat.mod_eq_of_lt (toNat_get_lt l s w))

/-- Packing what is unpacked from a machine word gives its low 24 bits, and the top byte does not
count in any field. Unpacking what is packed from an instruction gives that instruction. A field is
less than 256, so it is the byte that it is narrowed to. A word is the one that its three bytes
make, and has the bytes that it is made from. -/
theorem pack_unpack_and_narrow :
    (∀ (l : Layout) (w : BitVec 32), (l.pack (l.unpack w)).toBits.toNat = w.toNat % 2 ^ 24) ∧
    (∀ (l : Layout) (s : Slot) (w w' : BitVec 32), w.toNat % 2 ^ 24 = w'.toNat % 2 ^ 24 →
      (l.field s).get w = (l.field s).get w') ∧
    (∀ (l : Layout) (i : Instruction), l.unpack (l.pack i).toBits = i) ∧
    (∀ (l : Layout) (s : Slot) (w : BitVec 32), ((l.field s).get w).toNat < 256 ∧
      ((l.unpack w).get s).toNat = ((l.field s).get w).toNat) ∧
    (∀ w : Word, ∃ a b c, w.toBytes = [a, b, c] ∧ Word.ofBytes a b c = w) ∧
    ∀ a b c, (Word.ofBytes a b c).toBytes = [a, b, c] := by
  refine ⟨fun l w => ?_, fun l s w w' => get_eq_of_mod_eq l s, unpack_pack, fun l s w => ?_,
    Word.exists_ofBytes, Word.toBytes_ofBytes⟩
  · rw [pack_unpack, Word.toNat_toBits, Word.toNat_ofBits]
  · exact ⟨toNat_get_lt l s w, toNat_get_unpack l s w⟩

end Layout

end Tribyte
