import Tribyte.Proofs.Stream.RoundTrip
import Tribyte.Proofs.Traversal

/-!
# From layout to layout

A scan takes as many whole instructions as there are and leaves one or two bytes at most. So a
stream is refused only for a length that is no multiple of three, and its error follows from that
length alone, whatever layout it is read in.

Transcoding puts a program into another layout, so along a chain of layouts the program stays and
only the last layout shows in the bytes. A stream that breaks off is refused by the first step, and
all steps after it see whole streams.
-/

namespace Tribyte.Stream

section Truncation

theorem length_scan (l : Layout) : ∀ bytes : List UInt8,
    (scan l bytes).1.length = bytes.length / 3 ∧ (scan l bytes).2.length = bytes.length % 3
  | [] | [_] | [_, _] => by simp [scan_of_length_lt]
  | a :: b :: c :: rest => by
    obtain ⟨hcode, hleft⟩ := length_scan l rest
    rw [scan_cons]
    simp only [List.length_cons]
    constructor <;> omega

theorem decode_of_not_three_dvd {bytes : List UInt8} (h : ¬ 3 ∣ bytes.length) (l : Layout) :
    decode l bytes =
      .error (.truncated (bytes.length - bytes.length % 3) (bytes.length % 3)) := by
  obtain ⟨hcode, hleft⟩ := length_scan l bytes
  rw [decode]
  rcases hscan : scan l bytes with ⟨code, left⟩
  rw [hscan] at hcode hleft
  dsimp only at hcode hleft
  -- something is left over, so the lengths of the two parts are the data of the error
  cases left with
  | nil => exact absurd (Nat.dvd_of_mod_eq_zero hleft.symm) h
  | cons x left =>
    have hoffset : 3 * code.length = bytes.length - bytes.length % 3 := by omega
    simp only [Instruction.width, hoffset, hleft]

/-- The bytes end inside an instruction; the error says where it starts and what there is of it. -/
def BreaksOff (bytes : List UInt8) (cause : Error) : Prop :=
  0 < bytes.length % 3 ∧
    cause = .truncated (bytes.length - bytes.length % 3) (bytes.length % 3)

variable {bytes : List UInt8} {cause : Error}

theorem decode_eq_error_iff {l : Layout} :
    decode l bytes = .error cause ↔ BreaksOff bytes cause := by
  by_cases hwhole : 3 ∣ bytes.length
  · have hnone : ¬ 0 < bytes.length % 3 := by omega
    obtain ⟨code, hcode⟩ := exists_decode_of_three_dvd (l := l) hwhole
    simp [hcode, BreaksOff, hnone]
  · have hsome : 0 < bytes.length % 3 := by omega
    simp [decode_of_not_three_dvd hwhole, BreaksOff, hsome, eq_comm]

theorem transcode_eq_error_iff {source target : Layout} :
    transcode source target bytes = .error cause ↔ BreaksOff bytes cause := by
  rw [transcode, Traversal.map_eq_error_iff]
  exact decode_eq_error_iff

theorem BreaksOff.offset_add_remaining {offset remaining : Nat}
    (h : BreaksOff bytes (.truncated offset remaining)) : offset + remaining = bytes.length := by
  obtain ⟨-, hcause⟩ := h
  cases hcause
  exact Nat.sub_add_cancel (Nat.mod_le bytes.length 3)

end Truncation

/-- Transcodes out of `source` into each layout of the list in turn, up to the first error. -/
def transcodeThrough (source : Layout) : List Layout → List UInt8 → Except Error (List UInt8)
  | [], bytes => .ok bytes
  | target :: rest, bytes => do
    let written ← transcode source target bytes
    transcodeThrough target rest written

theorem transcode_of_decode_ok {source : Layout} {bytes : List UInt8} {code : List Instruction}
    (h : decode source bytes = .ok code) (target : Layout) :
    transcode source target bytes = .ok (encode target code) := by
  rw [transcode, h]
  rfl

theorem transcode_encode (source target : Layout) (code : List Instruction) :
    transcode source target (encode source code) = .ok (encode target code) :=
  transcode_of_decode_ok (decode_encode source code) target

theorem transcode_of_decode_error {source : Layout} {bytes : List UInt8} {cause : Error}
    (h : decode source bytes = .error cause) (target : Layout) :
    transcode source target bytes = .error cause := by
  rw [transcode, h]
  rfl

theorem transcodeThrough_cons_of_ok {source target : Layout} {bytes written : List UInt8}
    (h : transcode source target bytes = .ok written) (rest : List Layout) :
    transcodeThrough source (target :: rest) bytes = transcodeThrough target rest written := by
  rw [transcodeThrough, h]
  rfl

theorem transcodeThrough_cons_of_error {source target : Layout} {bytes : List UInt8}
    {cause : Error} (h : transcode source target bytes = .error cause) (rest : List Layout) :
    transcodeThrough source (target :: rest) bytes = .error cause := by
  rw [transcodeThrough, h]
  rfl

theorem transcodeThrough_encode (source : Layout) (targets : List Layout)
    (code : List Instruction) :
    transcodeThrough source targets (encode source code) =
      .ok (encode (targets.getLastD source) code) := by
  -- after one step the bytes encode the same code in the next layout, which is then the source
  induction targets generalizing source with
  | nil => rfl
  | cons target rest ih =>
    rw [transcodeThrough_cons_of_ok (transcode_encode source target code), ih,
      List.getLastD_cons]

/-- A chain of layouts has the effect of one step from its first layout to its last, and none if
these are the same. It fails only on a stream that breaks off, and then in its first step, with the
error of decoding and whatever the next layout is; a chain of one layout has no step to fail. -/
theorem transcodeThrough_eq_transcode_last (source : Layout) (targets : List Layout)
    (bytes : List UInt8) :
    (∃ (code : List Instruction) (written : List UInt8), 3 ∣ bytes.length ∧
      decode source bytes = .ok code ∧
      transcodeThrough source targets bytes = .ok written ∧
      written.length = bytes.length ∧
      transcode source (targets.getLastD source) bytes = .ok written ∧
      decode (targets.getLastD source) written = .ok code ∧
      (targets.getLastD source = source → written = bytes)) ∨
    ∃ cause : Error, ¬ 3 ∣ bytes.length ∧ decode source bytes = .error cause ∧
      (∀ target, transcode source target bytes = .error cause) ∧
      (targets ≠ [] → transcodeThrough source targets bytes = .error cause) := by
  by_cases hlength : 3 ∣ bytes.length
  · obtain ⟨code, hcode⟩ := exists_decode_of_three_dvd (l := source) hlength
    obtain rfl := encode_of_decode hcode
    refine .inl ⟨code, encode (targets.getLastD source) code, hlength, hcode,
      transcodeThrough_encode source targets code, ?_, transcode_encode _ _ code,
      decode_encode _ code, ?_⟩
    · rw [length_encode, length_encode]
    · intro hsame
      rw [hsame]
  · have herror := decode_of_not_three_dvd hlength source
    refine .inr ⟨_, hlength, herror, transcode_of_decode_error herror, fun hstep => ?_⟩
    obtain ⟨target, rest, rfl⟩ := List.exists_cons_of_ne_nil hstep
    exact transcodeThrough_cons_of_error (transcode_of_decode_error herror target) rest

end Tribyte.Stream
