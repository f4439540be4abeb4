import Mathlib.Data.Set.Function
import Tribyte.Proofs.Stream.Transcoding

/-!
# Images are read as they are written

An image is the tag of a layout in front of a body whose length is a multiple of three. Reading and
writing undo each other between all programs in all layouts and the byte strings of that form, so
an image has one encoding and every byte of it counts. With its tag an image is one byte too long
for a stream.
-/

namespace Tribyte.Image

theorem isImage_cons {tag : UInt8} {body : List UInt8} :
    isImage (tag :: body) = true ↔ (∃ l, Layout.tag l = tag) ∧ 3 ∣ body.length := by
  rw [isImage, Bool.and_eq_true, beq_iff_eq, Nat.dvd_iff_mod_eq_zero]
  refine and_congr ?_ Iff.rfl
  constructor
  · intro h
    cases htag : Layout.ofTag tag with
    | ok l => exact ⟨l, (Layout.ofTag_eq_ok_iff.mp htag).symm⟩
    | error e =>
      rw [htag] at h
      contradiction
  · intro h
    obtain ⟨l, rfl⟩ := h
    rw [Layout.ofTag_tag]
    rfl

theorem length_toBytes (image : Image) : image.toBytes.length = 3 * image.code.length + 1 := by
  rw [toBytes, List.length_cons, Stream.length_encode]

theorem isImage_toBytes (image : Image) : isImage image.toBytes = true :=
  isImage_cons.mpr ⟨⟨image.layout, rfl⟩, Stream.three_dvd_length_encode _ image.code⟩

theorem isImage_iff {bytes : List UInt8} :
    isImage bytes = true ↔ ∃ image, toBytes image = bytes := by
  constructor
  · intro h
    cases bytes with
    | nil => contradiction
    | cons tag body =>
      obtain ⟨⟨l, rfl⟩, hlength⟩ := isImage_cons.mp h
      obtain ⟨code, hcode⟩ := Stream.exists_decode_of_three_dvd (l := l) hlength
      exact ⟨⟨l, code⟩, congrArg _ (Stream.encode_of_decode hcode)⟩
  · intro h
    obtain ⟨image, rfl⟩ := h
    exact isImage_toBytes image

theorem length_mod_three {bytes : List UInt8} (h : isImage bytes = true) :
    bytes.length % 3 = 1 := by
  obtain ⟨image, rfl⟩ := isImage_iff.mp h
  rw [length_toBytes]
  omega

theorem not_three_dvd_length {bytes : List UInt8} (h : isImage bytes = true) :
    ¬ 3 ∣ bytes.length := by
  have hmod := length_mod_three h
  omega

theorem decode_eq_truncated {bytes : List UInt8} (h : isImage bytes = true) (l : Layout) :
    Stream.decode l bytes = .error (.truncated (bytes.length - 1) 1) := by
  rw [Stream.decode_of_not_three_dvd (not_three_dvd_length h), length_mod_three h]

theorem ofBytes_of_ofTag_error {tag : UInt8} {e : Error} (h : Layout.ofTag tag = .error e)
    (body : List UInt8) : ofBytes (tag :: body) = .error e := by
  rw [ofBytes, h]
  rfl

theorem ofBytes_tag_cons (l : Layout) (body : List UInt8) :
    ofBytes (l.tag :: body) = ((Stream.decode l body).mapError bodyError).map (⟨l, ·⟩) := by
  rw [ofBytes, Layout.ofTag_tag]
  rfl

theorem ofBytes_toBytes (image : Image) : ofBytes image.toBytes = .ok image := by
  rw [toBytes, ofBytes_tag_cons, Stream.decode_encode]
  rfl

theorem toBytes_of_ofBytes {bytes : List UInt8} {image : Image} (h : ofBytes bytes = .ok image) :
    image.toBytes = bytes := by
  cases bytes with
  | nil => contradiction
  | cons tag body =>
    cases htag : Layout.ofTag tag with
    | error e =>
      rw [ofBytes_of_ofTag_error htag] at h
      contradiction
    | ok l =>
      obtain rfl := Layout.ofTag_eq_ok_iff.mp htag
      rw [ofBytes_tag_cons] at h
      cases hcode : Stream.decode l body with
      | error e =>
        rw [hcode] at h
        contradiction
      | ok code =>
        rw [hcode] at h
        obtain rfl := Except.ok.inj h
        exact congrArg _ (Stream.encode_of_decode hcode)

theorem ofBytes_eq_ok_iff {bytes : List UInt8} {image : Image} :
    ofBytes bytes = .ok image ↔ image.toBytes = bytes := by
  constructor
  · exact toBytes_of_ofBytes
  · intro h
    subst h
    exact ofBytes_toBytes image

/-- Images and their bytes determine each other: what was written reads back, nothing else reads as
the same image, and what is accepted is a tag and whole instructions. -/
theorem toBytes_bijOn_and_ofBytes_inverse :
    (∀ image, ofBytes image.toBytes = .ok image) ∧
    (∀ bytes image, ofBytes bytes = .ok image ↔ image.toBytes = bytes) ∧
    (∀ image, ∃! bytes, ofBytes bytes = .ok image) ∧
    Set.BijOn toBytes Set.univ
      {bytes | ∃ (l : Layout) (body : List UInt8), bytes = l.tag :: body ∧ 3 ∣ body.length} ∧
    Set.InjOn ofBytes {bytes | ∃ image, ofBytes bytes = .ok image} := by
  refine ⟨ofBytes_toBytes, fun bytes image => ofBytes_eq_ok_iff, ?_, ⟨?_, ?_, ?_⟩, ?_⟩
  · intro image
    exact ⟨image.toBytes, ofBytes_toBytes image, fun bytes h => (toBytes_of_ofBytes h).symm⟩
  · intro image _
    exact ⟨image.layout, _, rfl, Stream.three_dvd_length_encode image.layout image.code⟩
  · intro x _ y _ h
    have hx := ofBytes_toBytes x
    rw [h, ofBytes_toBytes, Except.ok.injEq] at hx
    exact hx.symm
  · intro bytes h
    obtain ⟨l, body, rfl, hlength⟩ := h
    obtain ⟨image, himage⟩ := isImage_iff.mp (isImage_cons.mpr ⟨⟨l, rfl⟩, hlength⟩)
    exact ⟨image, trivial, himage⟩
  · intro bytes hbytes other _ h
    obtain ⟨image, himage⟩ := hbytes
    rw [← toBytes_of_ofBytes himage, ← toBytes_of_ofBytes (h.symm.trans himage)]

end Tribyte.Image
