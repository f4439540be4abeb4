import Mathlib.Data.Set.Function
import Tribyte.Proofs.Layout.ByteOrder
import Tribyte.Stream.Cursor

/-!
# Streams are read as they are written

A stream decodes to a program exactly when it is the encoding of that program, so encoding is a
bijection between the programs and the byte strings whose length is a multiple of three. A cursor
that is run to its end reads what decoding gives; from an offset on, it gives what is left with
the error moved by the offset.
-/

namespace Tribyte

/-- The same error in a stream that has `count` more bytes in front. -/
def Error.shift (count : Nat) : Error → Error
  | .truncated offset remaining => .truncated (count + offset) remaining
  | e => e

theorem Error.shift_shift (m n : Nat) (e : Error) : (e.shift n).shift m = e.shift (m + n) := by
  cases e <;> simp [shift, Nat.add_assoc]

namespace Stream

variable {l : Layout}

theorem encode_cons (l : Layout) (i : Instruction) (code : List Instruction) :
    encode l (i :: code) = l.encode i ++ encode l code := rfl

theorem length_encode (l : Layout) (code : List Instruction) :
    (encode l code).length = 3 * code.length := by
  induction code with
  | nil => rfl
  | cons i code ih =>
    rw [encode_cons, List.length_append, ih, Layout.length_encode, List.length_cons]
    omega

theorem three_dvd_length_encode (l : Layout) (code : List Instruction) :
    3 ∣ (encode l code).length := by
  rw [length_encode]
  exact Nat.dvd_mul_right 3 code.length

theorem decode_cons (l : Layout) (a b c : UInt8) (rest : List UInt8) :
    decode l (a :: b :: c :: rest) =
      ((decode l rest).map (l.unpack (Word.ofBytes a b c).toBits :: ·)).mapError (.shift 3) := by
  rw [decode, decode, scan_cons]
  obtain ⟨code, left⟩ := scan l rest
  cases left with
  | nil => rfl
  | cons x left =>
    simp only [Except.map, Except.mapError, Error.shift, Instruction.width, List.length_cons]
    rw [Nat.mul_add, Nat.add_comm]

theorem decode_of_length_lt {bytes : List UInt8} (h : bytes.length < 3) :
    decode l bytes =
      if bytes = [] then .ok [] else .error (.truncated 0 bytes.length) := by
  rw [decode, scan_of_length_lt h]
  cases bytes <;> rfl

theorem scan_fst_of_decode {bytes : List UInt8} {code : List Instruction}
    (h : decode l bytes = .ok code) : (scan l bytes).1 = code := by
  rw [decode] at h
  split at h
  · next hscan => rw [hscan, Except.ok.inj h]
  · contradiction

theorem decode_encode (l : Layout) (code : List Instruction) :
    decode l (encode l code) = .ok code := by
  induction code with
  | nil => rfl
  | cons i code ih =>
    obtain ⟨a, b, c, hencode, hunpack⟩ := l.exists_encode_eq i
    rw [encode_cons, hencode, List.cons_append, List.cons_append, List.singleton_append,
      decode_cons, ih, hunpack]
    rfl

theorem encode_of_decode : ∀ {bytes : List UInt8} {code : List Instruction},
    decode l bytes = .ok code → encode l code = bytes
  | [], code, h => by
    rw [decode_of_length_lt (by simp), if_pos rfl] at h
    cases h
    rfl
  | [x], code, h | [x, y], code, h => by
    simp [decode_of_length_lt] at h
  | a :: b :: c :: rest, code, h => by
    rw [decode_cons] at h
    cases hrest : decode l rest with
    | error e => simp [hrest, Except.map, Except.mapError] at h
    | ok tail =>
      simp only [hrest, Except.map, Except.mapError, Except.ok.injEq] at h
      subst h
      rw [encode_cons, Layout.encode_unpack_ofBytes, encode_of_decode hrest]
      rfl

theorem decode_eq_ok_iff {bytes : List UInt8} {code : List Instruction} :
    decode l bytes = .ok code ↔ encode l code = bytes := by
  constructor
  · exact encode_of_decode
  · intro h
    subst h
    exact decode_encode l code

theorem exists_decode_of_three_dvd : ∀ {bytes : List UInt8}, 3 ∣ bytes.length →
    ∃ code, decode l bytes = .ok code
  | [], _ => ⟨[], rfl⟩
  | [x], h | [x, y], h => by
    simp only [List.length_cons, List.length_nil] at h
    omega
  | a :: b :: c :: rest, h => by
    have hrest : 3 ∣ rest.length := by
      simp only [List.length_cons] at h
      omega
    obtain ⟨tail, htail⟩ := exists_decode_of_three_dvd hrest
    refine ⟨l.unpack (Word.ofBytes a b c).toBits :: tail, ?_⟩
    rw [decode_cons, htail]
    rfl

theorem exists_decode_iff {bytes : List UInt8} :
    (∃ code, decode l bytes = .ok code) ↔ 3 ∣ bytes.length := by
  constructor
  · intro h
    obtain ⟨code, h⟩ := h
    rw [← encode_of_decode h]
    exact three_dvd_length_encode l code
  · exact exists_decode_of_three_dvd

theorem exists_encode_of_three_dvd (l : Layout) {bytes : List UInt8} (h : 3 ∣ bytes.length) :
    ∃ code, encode l code = bytes := by
  obtain ⟨code, hcode⟩ := exists_decode_of_three_dvd (l := l) h
  exact ⟨code, encode_of_decode hcode⟩

end Stream

theorem Cursor.collect_append (l : Layout) : ∀ front back : List UInt8,
    collect ⟨l, front ++ back, some front.length⟩ =
      (Stream.decode l back).mapError (.shift front.length)
  | front, [] => by
    rw [collect_of_next_none (next_of_length_le (by simp))]
    rfl
  | front, [x] | front, [x, y] => by
    rw [collect_of_next_error (next_of_length_lt (by simp) (by simp))]
    simp [Stream.decode_of_length_lt, Except.mapError, Error.shift]
  | front, a :: b :: c :: rest => by
    have hdrop : (front ++ a :: b :: c :: rest).drop front.length = a :: b :: c :: rest := by simp
    -- the bytes do not change, only three more of them now belong to the front
    have ih := collect_append l (front ++ [a, b, c]) rest
    rw [List.append_assoc, List.length_append] at ih
    rw [collect_of_next_ok (next_of_cons hdrop), Stream.decode_cons]
    refine (congrArg _ ih).trans ?_
    cases Stream.decode l rest with
    | ok code => rfl
    | error e =>
      simp only [Except.map, Except.mapError, Error.shift_shift, List.length_cons, List.length_nil]

theorem Cursor.collect_start (l : Layout) (bytes : List UInt8) :
    collect { layout := l, bytes := bytes } = Stream.decode l bytes := by
  refine (collect_append l [] bytes).trans ?_
  cases Stream.decode l bytes with
  | ok code => rfl
  | error e => cases e <;> simp [Except.mapError, Error.shift]

/-- Encoding and decoding in one layout undo each other, between all programs and all byte strings
whose length is a multiple of three; decoding is what a cursor reads from start to end. -/
theorem Stream.encode_bijOn_and_decode_inverse (l : Layout) :
    Set.BijOn (encode l) Set.univ {bytes | 3 ∣ bytes.length} ∧
    (∀ code, decode l (encode l code) = .ok code ∧ (encode l code).length = 3 * code.length) ∧
    (∀ bytes code, decode l bytes = .ok code ↔ encode l code = bytes) ∧
    (∀ bytes, (∃ code, decode l bytes = .ok code) ↔ 3 ∣ bytes.length) ∧
    ∀ bytes, Cursor.collect { layout := l, bytes := bytes } = decode l bytes := by
  refine ⟨⟨?_, ?_, ?_⟩, ?_, ?_, ?_, Cursor.collect_start l⟩
  · intro code _
    exact exists_decode_iff.mp ⟨code, decode_encode l code⟩
  · intro x _ y _ h
    have hx := decode_eq_ok_iff.mpr h
    rw [decode_encode, Except.ok.injEq] at hx
    exact hx.symm
  · intro bytes h
    obtain ⟨code, hcode⟩ := exists_decode_iff.mpr h
    exact ⟨code, trivial, encode_of_decode hcode⟩
  · exact fun code => ⟨decode_encode l code, length_encode l code⟩
  · exact fun bytes code => decode_eq_ok_iff
  · exact fun bytes => exists_decode_iff

end Tribyte
