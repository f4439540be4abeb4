import Mathlib.Algebra.Group.Nat.Defs
import Tribyte.Word

/-!
# Reading and writing bit fields

What is written to a field and read again is cut to the width of the field, and what is read from a
word and written again is the word under the mask. Fields that have no bit in common do not see each
other: each of them reads its own part of the or, and nothing is carried when the parts are added.
-/

namespace Tribyte.Field

variable {n : Nat} {f g : Field n}

def Covers (f : Field n) (i : Nat) : Prop := f.offset ≤ i ∧ i < f.width + f.offset

/-- No bit belongs to both fields. A field of width zero has no bits, so it is apart from all. -/
def Apart (f g : Field n) : Prop := ∀ i, f.Covers i → ¬ g.Covers i

theorem Apart.symm (h : f.Apart g) : g.Apart f := fun i hg hf => h i hf hg

theorem Disjoint.apart (h : f.Disjoint g) : f.Apart g := by
  intro i hf hg
  obtain ⟨hf₁, hf₂⟩ := hf
  obtain ⟨hg₁, hg₂⟩ := hg
  rcases h with h | h <;> omega

theorem toNat_mask (f : Field n) : f.mask.toNat = (2 ^ f.width - 1) * 2 ^ f.offset := by
  have hpos : 0 < 2 ^ f.width * 2 ^ f.offset := Nat.mul_pos (Nat.two_pow_pos _) (Nat.two_pow_pos _)
  have hfits : 2 ^ f.width * 2 ^ f.offset ≤ 2 ^ n := by
    rw [← Nat.pow_add]
    exact Nat.pow_le_pow_right (by decide) f.fits
  have hlt : (2 ^ f.width - 1) * 2 ^ f.offset < 2 ^ f.width * 2 ^ f.offset :=
    Nat.mul_lt_mul_of_pos_right (Nat.sub_lt (Nat.two_pow_pos _) Nat.one_pos) (Nat.two_pow_pos _)
  rw [mask, BitVec.toNat_ofNat, Nat.one_shiftLeft, Nat.shiftLeft_eq, Nat.mod_eq_of_lt]
  exact Nat.lt_of_lt_of_le hlt hfits

theorem get_or (f : Field n) (v w : BitVec n) : f.get (v ||| w) = f.get v ||| f.get w := by
  apply BitVec.eq_of_getLsbD_eq
  intro i _
  simp only [getLsbD_get, BitVec.getLsbD_or, Bool.and_or_distrib_right]

theorem getLsbD_get_put (f : Field n) (v : BitVec n) (i : Nat) :
    (f.get (f.put v)).getLsbD i = (v.getLsbD i && decide (i < f.width)) := by
  rw [getLsbD_get, getLsbD_put]
  by_cases h : i < f.width
  · simp [h, show f.offset + i < f.width + f.offset by omega]
  · simp [h]

theorem toNat_get_put (f : Field n) (v : BitVec n) :
    (f.get (f.put v)).toNat = v.toNat % 2 ^ f.width := by
  apply Nat.eq_of_testBit_eq
  intro i
  rw [BitVec.testBit_toNat, getLsbD_get_put, Nat.testBit_mod_two_pow, BitVec.testBit_toNat,
    Bool.and_comm]

theorem put_get (f : Field n) (w : BitVec n) : f.put (f.get w) = w &&& f.mask := by
  apply BitVec.eq_of_getLsbD_eq
  intro i _
  rw [getLsbD_put, getLsbD_get, BitVec.getLsbD_and, getLsbD_mask]
  by_cases h : f.offset ≤ i ∧ i < f.width + f.offset
  · simp [h, show i - f.offset < f.width by omega]
  · simp [h]

theorem toNat_get_lt (f : Field n) (w : BitVec n) : (f.get w).toNat < 2 ^ f.width := by
  apply Nat.lt_pow_two_of_testBit
  intro i hi
  rw [BitVec.testBit_toNat, getLsbD_get]
  simp [Nat.not_lt.mpr hi]

theorem get_put_of_apart (h : f.Apart g) (v : BitVec n) : f.get (g.put v) = 0#n := by
  apply BitVec.eq_of_getLsbD_eq
  intro i _
  rw [getLsbD_get, getLsbD_put, BitVec.getLsbD_zero]
  by_cases hi : i < f.width
  · have hf : f.Covers (f.offset + i) := ⟨by omega, by omega⟩
    have hg : ¬ (g.offset ≤ f.offset + i ∧ f.offset + i < g.width + g.offset) := h _ hf
    simp [hg]
  · simp [hi]

theorem put_and_put_of_apart (h : f.Apart g) (v w : BitVec n) : f.put v &&& g.put w = 0#n := by
  apply BitVec.eq_of_getLsbD_eq
  intro i _
  rw [BitVec.getLsbD_and, getLsbD_put, getLsbD_put, BitVec.getLsbD_zero]
  by_cases hf : f.offset ≤ i ∧ i < f.width + f.offset
  · have hg : ¬ (g.offset ≤ i ∧ i < g.width + g.offset) := h i hf
    simp [hg]
  · simp [hf]

theorem toNat_put_or_put (h : f.Apart g) (v w : BitVec n) :
    (f.put v ||| g.put w).toNat = (f.put v).toNat + (g.put w).toNat := by
  have hzero := put_and_put_of_apart h v w
  rw [← BitVec.add_eq_or_of_and_eq_zero _ _ hzero, BitVec.toNat_add_of_and_eq_zero hzero]

/-- A field keeps of a value the bits that it has room for, and of a word the bits under its mask.
The or of what is written to two fields that have no bit in common is their sum, and both fields
read from it what they read from their own part. -/
theorem get_put_and_put_get (f : Field n) (v w : BitVec n) :
    f.mask.toNat = (2 ^ f.width - 1) * 2 ^ f.offset ∧
    (f.get (f.put v)).toNat = v.toNat % 2 ^ f.width ∧
    f.put (f.get w) = w &&& f.mask ∧
    ∀ g : Field n, f.Apart g →
      f.get (f.put v ||| g.put w) = f.get (f.put v) ∧
      g.get (f.put v ||| g.put w) = g.get (g.put w) ∧
      (f.put v ||| g.put w).toNat = (f.put v).toNat + (g.put w).toNat := by
  refine ⟨toNat_mask f, toNat_get_put f v, put_get f w, fun g h => ⟨?_, ?_, toNat_put_or_put h v w⟩⟩
  · rw [get_or, get_put_of_apart h, BitVec.or_zero]
  · rw [get_or, get_put_of_apart h.symm, BitVec.zero_or]

/-- The field reaches the top of its word, and the value is a bit too long for it. -/
example :
    let f : Field 32 := { width := 8, offset := 24 }
    f.put 0x1ab = 0xab000000 ∧ f.get 0xabcdef01 = 0xab := by decide

end Tribyte.Field
