/-!
# Instruction words and their bit fields

A field is `width` bits of an `n`-bit word, `offset` bits up from the lowest. Reading brings the
bits of the field down to the lowest place, writing shifts a value up to them and drops what falls
outside the mask. A field never reaches past the top of its word.

An instruction word is 24 bits, kept as three bytes with the highest first. A wider machine word
gives its low 24 bits and no more.
-/

namespace Tribyte

structure Field (n : Nat) where
  width : Nat
  offset : Nat
  fits : width + offset ≤ n := by decide

namespace Field

variable {n : Nat} (f : Field n)

def mask : BitVec n := BitVec.ofNat n (((1 <<< f.width) - 1) <<< f.offset)

def get (w : BitVec n) : BitVec n := (w &&& f.mask) >>> f.offset

def put (v : BitVec n) : BitVec n := (v <<< f.offset) &&& f.mask

def Disjoint (f g : Field n) : Prop :=
  f.width + f.offset ≤ g.offset ∨ g.width + g.offset ≤ f.offset

theorem getLsbD_mask (i : Nat) :
    f.mask.getLsbD i = decide (f.offset ≤ i ∧ i < f.width + f.offset) := by
  have hf := f.fits
  rw [mask, BitVec.getLsbD_ofNat, Nat.testBit_shiftLeft, Nat.one_shiftLeft,
    Nat.testBit_two_pow_sub_one]
  by_cases h₁ : f.offset ≤ i <;> by_cases h₂ : i < f.width + f.offset <;> simp [h₁, h₂] <;> omega

theorem getLsbD_get (w : BitVec n) (i : Nat) :
    (f.get w).getLsbD i = (w.getLsbD (f.offset + i) && decide (i < f.width)) := by
  simp only [get, BitVec.getLsbD_ushiftRight, BitVec.getLsbD_and, getLsbD_mask]
  by_cases h : i < f.width
  · simp [h, show f.offset + i < f.width + f.offset by omega]
  · simp [h, show ¬ f.offset + i < f.width + f.offset by omega]

theorem getLsbD_put (v : BitVec n) (i : Nat) :
    (f.put v).getLsbD i =
      (v.getLsbD (i - f.offset) && decide (f.offset ≤ i ∧ i < f.width + f.offset)) := by
  have hf := f.fits
  simp only [put, BitVec.getLsbD_and, BitVec.getLsbD_shiftLeft, getLsbD_mask]
  by_cases h : f.offset ≤ i ∧ i < f.width + f.offset
  · simp [h, show i < n by omega, show ¬ i < f.offset by omega]
  · simp [h]

end Field

abbrev Word := BitVec 24

namespace Word

def ofBits (w : BitVec 32) : Word := w.setWidth 24

def toBits (w : Word) : BitVec 32 := w.setWidth 32

def ofBytes (high middle low : UInt8) : Word :=
  high.toBitVec ++ middle.toBitVec ++ low.toBitVec

def toBytes (w : Word) : List UInt8 :=
  [⟨w.extractLsb' 16 8⟩, ⟨w.extractLsb' 8 8⟩, ⟨w.extractLsb' 0 8⟩]

theorem getLsbD_ofBytes (a b c : UInt8) (i : Nat) :
    (ofBytes a b c).getLsbD i =
      if i < 8 then c.toBitVec.getLsbD i
      else if i < 16 then b.toBitVec.getLsbD (i - 8) else a.toBitVec.getLsbD (i - 16) := by
  change BitVec.getLsbD (w := 8 + 8 + 8) _ i = _
  rw [ofBytes, BitVec.getLsbD_append, BitVec.getLsbD_append]
  by_cases h₁ : i < 8
  · simp [h₁]
  · by_cases h₂ : i < 16
    · simp [h₁, h₂, show i - 8 < 8 by omega]
    · simp [h₁, h₂, show ¬ i - 8 < 8 by omega, Nat.sub_sub]

theorem toBytes_ofBytes (a b c : UInt8) : (ofBytes a b c).toBytes = [a, b, c] := by
  simp only [toBytes, List.cons.injEq, and_true, ← UInt8.toBitVec_inj]
  refine ⟨?_, ?_, ?_⟩ <;> apply BitVec.eq_of_getLsbD_eq <;> intro i hi <;>
    simp only [BitVec.getLsbD_extractLsb', getLsbD_ofBytes, hi, decide_true, Bool.true_and]
  · simp [show ¬ 16 + i < 8 by omega, show ¬ 16 + i < 16 by omega]
  · simp [show ¬ 8 + i < 8 by omega, show 8 + i < 16 by omega]
  · simp [hi]

end Word

end Tribyte
