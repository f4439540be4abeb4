import Tribyte.Proofs.Stream.Transcoding

/-!
# The bytes of a stream

The fields of a word are bytes, so a stream holds the parts of its instructions one after the other,
in the order of its layout. Transcoding moves the bytes within each group of three and changes none.
-/

namespace Tribyte

namespace Layout

variable {l : Layout} {bytes : List UInt8}

theorem decode_eq_ok_iff {i : Instruction} :
    l.decode bytes = .ok i ↔ l.order.map i.get = bytes := by
  match bytes with
  | [a, b, c] => rw [← encode_eq_order_map, encode_eq_iff, decode, Except.ok.injEq]
  | [] | [_] | [_, _] | _ :: _ :: _ :: _ :: _ =>
    have hlength : l.order.length = 3 := by cases l <;> rfl
    constructor
    · intro h
      cases h
    · intro h
      have hcount := congrArg List.length h
      simp [hlength] at hcount

theorem decode_eq_error_iff {cause : Error} :
    l.decode bytes = .error cause ↔
      bytes.length ≠ 3 ∧ cause = .invalidLength 3 bytes.length := by
  match bytes with
  | [a, b, c] => simp [decode]
  | [] | [_] | [_, _] | _ :: _ :: _ :: _ :: _ => simp [decode, Instruction.width, eq_comm]

theorem exists_decode_iff : (∃ i, l.decode bytes = .ok i) ↔ bytes.length = 3 := by
  cases h : l.decode bytes with
  | ok i =>
    rw [← decode_eq_ok_iff.mp h]
    cases l <;> simp [order]
  | error cause => simp [(decode_eq_error_iff.mp h).1]

end Layout

namespace Stream

theorem encode_eq_flatMap_order (l : Layout) (code : List Instruction) :
    encode l code = code.flatMap fun i => l.order.map i.get := by
  rw [encode, funext (Layout.encode_eq_order_map l)]

abbrev Triple := UInt8 × UInt8 × UInt8

def ungroup (groups : List Triple) : List UInt8 := groups.flatMap fun (x, y, z) => [x, y, z]

def ofTriple : Layout → Triple → Instruction
  | .v1, (x, y, z) => ⟨x, y, z⟩
  | .v2, (x, y, z) => ⟨y, z, x⟩

theorem order_map_ofTriple (l : Layout) (x y z : UInt8) :
    l.order.map (ofTriple l (x, y, z)).get = [x, y, z] := by
  cases l <;> rfl

theorem encode_map_ofTriple (l : Layout) (groups : List Triple) :
    encode l (groups.map (ofTriple l)) = ungroup groups := by
  rw [encode_eq_flatMap_order, List.flatMap_map]
  exact congrArg (groups.flatMap ·) (funext fun (x, y, z) => order_map_ofTriple l x y z)

theorem three_dvd_length_iff_ungroup {bytes : List UInt8} :
    3 ∣ bytes.length ↔ ∃ groups, ungroup groups = bytes := by
  constructor
  · intro h
    obtain ⟨code, rfl⟩ := exists_encode_of_three_dvd .v1 h
    refine ⟨code.map fun i => (i.op, i.arg1, i.arg2), ?_⟩
    rw [← encode_map_ofTriple .v1, List.map_map]
    exact congrArg (encode .v1) (List.map_id code)
  · intro h
    obtain ⟨groups, rfl⟩ := h
    rw [← encode_map_ofTriple .v1]
    exact three_dvd_length_encode .v1 _

theorem transcode_ungroup {source target : Layout} {rearrange : Triple → Triple}
    (h : ∀ g, ofTriple target (rearrange g) = ofTriple source g) (groups : List Triple) :
    transcode source target (ungroup groups) = .ok (ungroup (groups.map rearrange)) := by
  have hsame : groups.map (ofTriple source) = (groups.map rearrange).map (ofTriple target) := by
    rw [List.map_map]
    exact List.map_congr_left fun g _ => (h g).symm
  rw [← encode_map_ofTriple source, transcode_encode, hsame, encode_map_ofTriple]

/-- The byte table of the two layouts. Encoding writes the parts of the instructions in the order of
the layout, decoding takes three bytes and nothing else, and transcoding rotates each group of three
bytes, one way or the other. -/
theorem encode_decode_transcode_bytes :
    (∀ code, encode .v1 code = code.flatMap fun i => [i.op, i.arg1, i.arg2]) ∧
    (∀ code, encode .v2 code = code.flatMap fun i => [i.arg2, i.op, i.arg1]) ∧
    (∀ a b c, Layout.v1.decode [a, b, c] = .ok ⟨a, b, c⟩) ∧
    (∀ a b c, Layout.v2.decode [a, b, c] = .ok ⟨b, c, a⟩) ∧
    (∀ (l : Layout) bytes, (∃ i, l.decode bytes = .ok i) ↔ bytes.length = 3) ∧
    (∀ (l : Layout) bytes cause, l.decode bytes = .error cause ↔
      bytes.length ≠ 3 ∧ cause = .invalidLength 3 bytes.length) ∧
    (∀ bytes : List UInt8, 3 ∣ bytes.length ↔ ∃ groups, ungroup groups = bytes) ∧
    (∀ groups, transcode .v1 .v2 (ungroup groups) =
      .ok (ungroup (groups.map fun (x, y, z) => (z, x, y)))) ∧
    ∀ groups, transcode .v2 .v1 (ungroup groups) =
      .ok (ungroup (groups.map fun (x, y, z) => (y, z, x))) := by
  refine ⟨encode_eq_flatMap_order .v1, encode_eq_flatMap_order .v2,
    fun a b c => Layout.decode_eq_ok_iff.mpr rfl, fun a b c => Layout.decode_eq_ok_iff.mpr rfl,
    fun l bytes => Layout.exists_decode_iff, fun l bytes cause => Layout.decode_eq_error_iff,
    fun bytes => three_dvd_length_iff_ungroup, ?_, ?_⟩
  · exact transcode_ungroup fun (x, y, z) => rfl
  · exact transcode_ungroup fun (x, y, z) => rfl

end Stream

end Tribyte
