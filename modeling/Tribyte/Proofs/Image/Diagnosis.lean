import Tribyte.Proofs.Image

/-!
# What is wrong with refused bytes

A stream is refused only for ending inside an instruction, and an image for having no tag, an
unknown tag or such a body, in this order. The offset that is reported counts from the first of the
bytes that were given, the tag included, so together with what remains it is their number.
-/

namespace Tribyte

theorem Layout.ofTag_eq_error_iff {tag : UInt8} {cause : Error} :
    ofTag tag = .error cause ↔ tag ≠ 1 ∧ tag ≠ 2 ∧ cause = .unknownTag tag := by
  unfold ofTag
  by_cases h₁ : tag = 1
  · simp [h₁]
  · by_cases h₂ : tag = 2
    · simp [h₂]
    · simp [h₁, h₂, eq_comm]

namespace Image

/-- These bytes are no image, for this reason. The reasons exclude each other: a body counts only
behind a known tag. -/
inductive Refused : List UInt8 → Error → Prop
  | empty : Refused [] (.invalidLength 1 0)
  | unknownTag {tag : UInt8} {body : List UInt8} : tag ≠ 1 → tag ≠ 2 →
      Refused (tag :: body) (.unknownTag tag)
  | truncated {tag : UInt8} {body : List UInt8} : tag = 1 ∨ tag = 2 → 0 < body.length % 3 →
      Refused (tag :: body)
        (.truncated ((tag :: body).length - body.length % 3) (body.length % 3))

variable {bytes : List UInt8} {cause : Error}

theorem ofBytes_tag_cons_eq_error_iff {l : Layout} {body : List UInt8} :
    ofBytes (l.tag :: body) = .error cause ↔ 0 < body.length % 3 ∧
      cause = .truncated ((l.tag :: body).length - body.length % 3) (body.length % 3) := by
  have hshift : body.length - body.length % 3 + 1 = (l.tag :: body).length - body.length % 3 := by
    rw [List.length_cons]
    omega
  rw [ofBytes_tag_cons, Traversal.map_eq_error_iff, Traversal.mapError_eq_error_iff, ← hshift]
  constructor
  · intro h
    obtain ⟨e, he, rfl⟩ := h
    obtain ⟨hsome, rfl⟩ := Stream.decode_eq_error_iff.mp he
    exact ⟨hsome, rfl⟩
  · intro h
    obtain ⟨hsome, rfl⟩ := h
    exact ⟨_, Stream.decode_eq_error_iff.mpr ⟨hsome, rfl⟩, rfl⟩

theorem ofBytes_eq_error_iff : ofBytes bytes = .error cause ↔ Refused bytes cause := by
  match bytes with
  | [] =>
    rw [ofBytes, Except.error.injEq]
    constructor
    · rintro rfl
      exact .empty
    · intro h
      cases h
      rfl
  | tag :: body =>
    cases htag : Layout.ofTag tag with
    | error e =>
      obtain ⟨h₁, h₂, rfl⟩ := Layout.ofTag_eq_error_iff.mp htag
      rw [ofBytes_of_ofTag_error htag, Except.error.injEq]
      constructor
      · rintro rfl
        exact .unknownTag h₁ h₂
      · intro h
        cases h with
        | unknownTag => rfl
        | truncated hknown => exact (not_or.mpr ⟨h₁, h₂⟩ hknown).elim
    | ok l =>
      obtain rfl := Layout.ofTag_eq_ok_iff.mp htag
      have hknown : l.tag = 1 ∨ l.tag = 2 := by cases l <;> decide
      rw [ofBytes_tag_cons_eq_error_iff]
      constructor
      · intro h
        obtain ⟨hsome, rfl⟩ := h
        exact .truncated hknown hsome
      · intro h
        cases h with
        | unknownTag h₁ h₂ => exact (not_or.mpr ⟨h₁, h₂⟩ hknown).elim
        | truncated _ hsome => exact ⟨hsome, rfl⟩

theorem Refused.offset_add_remaining {offset remaining : Nat}
    (h : Refused bytes (.truncated offset remaining)) : offset + remaining = bytes.length := by
  cases h with
  | truncated =>
    exact Nat.sub_add_cancel ((Nat.mod_le _ 3).trans (Nat.le_succ _))

/-- Decoding and transcoding fail exactly on streams that break off, with the same error in every
layout, and reading an image fails exactly for the reasons of `Refused`. Wherever a truncation is
reported, its offset and what remains add up to the number of the bytes that were given. -/
theorem decode_transcode_ofBytes_eq_error_iff (bytes : List UInt8) (source target : Layout) :
    (∀ cause, Stream.decode source bytes = .error cause ↔ Stream.BreaksOff bytes cause) ∧
    (∀ cause, Stream.transcode source target bytes = .error cause ↔
      Stream.BreaksOff bytes cause) ∧
    (∀ cause, ofBytes bytes = .error cause ↔ Refused bytes cause) ∧
    ∀ offset remaining, Stream.decode source bytes = .error (.truncated offset remaining) ∨
        Stream.transcode source target bytes = .error (.truncated offset remaining) ∨
        ofBytes bytes = .error (.truncated offset remaining) →
      offset + remaining = bytes.length := by
  refine ⟨fun _ => Stream.decode_eq_error_iff, fun _ => Stream.transcode_eq_error_iff,
    fun _ => ofBytes_eq_error_iff, fun offset remaining h => ?_⟩
  rcases h with h | h | h
  · exact (Stream.decode_eq_error_iff.mp h).offset_add_remaining
  · exact (Stream.transcode_eq_error_iff.mp h).offset_add_remaining
  · exact (ofBytes_eq_error_iff.mp h).offset_add_remaining

theorem decode_transcode_ofBytes_eq_error_iff_five :
    let bytes : List UInt8 := [0x02, 1, 2, 3, 4]
    Stream.transcode .v1 .v2 bytes = .error (.truncated 3 2) ∧ 3 + 2 = bytes.length ∧
    ofBytes bytes = .error (.truncated 4 1) ∧ 4 + 1 = bytes.length := by
  intro bytes
  obtain ⟨-, htranscode, hofBytes, hlength⟩ :=
    decode_transcode_ofBytes_eq_error_iff bytes .v1 .v2
  have hstream : Stream.transcode .v1 .v2 bytes = .error (.truncated 3 2) :=
    (htranscode _).mpr ⟨by decide, by decide⟩
  have himage : ofBytes bytes = .error (.truncated 4 1) :=
    (hofBytes _).mpr (.truncated (.inr rfl) (by decide))
  exact ⟨hstream, hlength 3 2 (.inr (.inl hstream)), himage, hlength 4 1 (.inr (.inr himage))⟩

end Image

end Tribyte
