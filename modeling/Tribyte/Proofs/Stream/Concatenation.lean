import Tribyte.Proofs.Stream.Transcoding

/-!
# One stream behind another

Programs that are put together encode to their streams put together. A stream of whole instructions
can be read in front of any bytes: what follows is read as if it stood alone, and if it breaks off,
it does so as many bytes further on as there are in front.
-/

namespace Tribyte.Stream

variable {l : Layout} {front back : List UInt8}

theorem encode_append (l : Layout) (code more : List Instruction) :
    encode l (code ++ more) = encode l code ++ encode l more :=
  List.flatMap_append

theorem decode_append_of_ok {code more : List Instruction} (hfront : decode l front = .ok code)
    (hback : decode l back = .ok more) : decode l (front ++ back) = .ok (code ++ more) := by
  rw [decode_eq_ok_iff] at hfront hback ⊢
  rw [encode_append, hfront, hback]

theorem BreaksOff.append {cause : Error} (hfront : 3 ∣ front.length) (h : BreaksOff back cause) :
    BreaksOff (front ++ back) (cause.shift front.length) := by
  obtain ⟨hsome, rfl⟩ := h
  have hlength : (front ++ back).length = front.length + back.length := List.length_append
  refine ⟨by omega, ?_⟩
  rw [Error.shift, Error.truncated.injEq]
  constructor <;> omega

theorem decode_append_of_error {cause : Error} (hfront : 3 ∣ front.length)
    (hback : decode l back = .error cause) :
    decode l (front ++ back) = .error (cause.shift front.length) :=
  decode_eq_error_iff.mpr ((decode_eq_error_iff.mp hback).append hfront)

/-- Encoding takes programs that are put together to streams put together. Decoding and transcoding
go on behind whole instructions with what they make of the rest by itself; where the rest breaks
off, the error counts its offset on from the bytes in front. -/
theorem encode_decode_transcode_append (l : Layout) :
    (∀ code more, encode l (code ++ more) = encode l code ++ encode l more) ∧
    ∀ front back : List UInt8, 3 ∣ front.length → ∃ code, decode l front = .ok code ∧
      (∀ more, decode l back = .ok more →
        decode l (front ++ back) = .ok (code ++ more) ∧
        ∀ target, ∃ written rest, transcode l target front = .ok written ∧
          transcode l target back = .ok rest ∧
          transcode l target (front ++ back) = .ok (written ++ rest)) ∧
      ∀ cause, decode l back = .error cause →
        ∃ offset remaining, cause = .truncated offset remaining ∧
          decode l (front ++ back) = .error (.truncated (front.length + offset) remaining) := by
  refine ⟨encode_append l, fun front back hwhole => ?_⟩
  obtain ⟨code, hfront⟩ := exists_decode_of_three_dvd (l := l) hwhole
  refine ⟨code, hfront, fun more hback => ⟨decode_append_of_ok hfront hback, fun target => ?_⟩,
    fun cause hback => ?_⟩
  · refine ⟨_, _, transcode_of_decode_ok hfront target, transcode_of_decode_ok hback target, ?_⟩
    rw [transcode_of_decode_ok (decode_append_of_ok hfront hback), encode_append]
  · obtain ⟨-, rfl⟩ := decode_eq_error_iff.mp hback
    exact ⟨_, _, rfl, decode_append_of_error hwhole hback⟩

theorem encode_decode_transcode_append_v2 :
    let front : List UInt8 := [1, 2, 3]
    3 ∣ front.length ∧
    decode .v2 (front ++ [4, 5, 6]) = .ok ([⟨2, 3, 1⟩] ++ [⟨5, 6, 4⟩]) ∧
    transcode .v2 .v1 (front ++ [4, 5, 6]) = .ok ([2, 3, 1] ++ [5, 6, 4]) ∧
    decode .v2 (front ++ [4, 5, 6, 7]) = .error (.truncated (front.length + 3) 1) := by
  intro front
  have hfront : 3 ∣ front.length := by decide
  have hcode : decode .v2 front = .ok [⟨2, 3, 1⟩] := by decide
  have hmore : decode .v2 [4, 5, 6] = .ok [⟨5, 6, 4⟩] := by decide
  have hbroken : decode .v2 [4, 5, 6, 7] = .error (.truncated 3 1) := by decide
  obtain ⟨code, hfront', hwhole, -⟩ :=
    (encode_decode_transcode_append .v2).2 front [4, 5, 6] hfront
  obtain ⟨-, -, -, hbreaks⟩ := (encode_decode_transcode_append .v2).2 front [4, 5, 6, 7] hfront
  obtain ⟨hdecode, htranscode⟩ := hwhole _ hmore
  refine ⟨hfront, ?_, ?_, ?_⟩
  · rw [hdecode]
    rw [hcode] at hfront'
    cases hfront'
    rfl
  · obtain ⟨written, rest, hwritten, hrest, hboth⟩ := htranscode .v1
    cases hwritten
    cases hrest
    exact hboth
  · obtain ⟨offset, remaining, hcause, herror⟩ := hbreaks _ hbroken
    cases hcause
    exact herror

end Tribyte.Stream
