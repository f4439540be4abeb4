import Tribyte.Proofs.Cli.Outcome
import Tribyte.Proofs.Image
import Tribyte.Proofs.Stream.Transcoding

/-!
# Images and bare streams told apart

The tags are opcodes too, so only the length tells an image from a stream: with its tag an image is
one byte longer than whole instructions. A file is therefore an image, or a stream, or neither, and
`disasm` without a layout tells which. A command that is given a layout takes the tag for code and
finds the last byte of an image to be too much.
-/

namespace Tribyte.Cli

/-- The command takes the whole file for code in the layout, without a tag in front. -/
inductive Command.ReadsStream (file : String) (l : Layout) : Command → Prop
  | disasm : ReadsStream file l (.disasm file (some l))
  | convert (target : Layout) (output : Option String) :
      ReadsStream file l (.convert file l target output)

/-- The layout and the code that a listing is made from, by the layout that was given. -/
inductive ListedAs : Option Layout → List UInt8 → Layout → List UInt8 → Prop
  | given {l : Layout} {bytes : List UInt8} : ListedAs (some l) bytes l bytes
  | image {l : Layout} {body : List UInt8} :
      Image.isImage (l.tag :: body) = true → ListedAs none (l.tag :: body) l body
  | untagged {bytes : List UInt8} :
      ¬ Image.isImage bytes = true → ListedAs none bytes .v1 bytes

theorem detects_given (l : Layout) (bytes : List UInt8) :
    Detects (some l) bytes [] l bytes := by
  intro w
  rw [World.record_nil]
  rfl

theorem detects_tag_cons {l : Layout} {body : List UInt8} (h : 3 ∣ body.length) :
    Detects none (l.tag :: body) [] l body := by
  intro w
  have himage : Image.isImage (l.tag :: body) = true := Image.isImage_cons.mpr ⟨⟨l, rfl⟩, h⟩
  rw [detect, if_pos himage, Fallible.eval_bind_of_ok
    (Fallible.eval_orFail_of_ok (Layout.ofTag_tag l) w), World.record_nil]
  rfl

theorem detects_toBytes (image : Image) :
    Detects none image.toBytes [] image.layout (Stream.encode image.layout image.code) :=
  detects_tag_cons (Stream.three_dvd_length_encode _ image.code)

theorem detects_of_not_isImage {bytes : List UInt8} (h : ¬ Image.isImage bytes = true) :
    Detects none bytes [.untagged .v1] .v1 bytes := by
  intro w
  cases bytes with
  | nil => rfl
  | cons tag body =>
    rw [detect, if_neg h]
    rfl

/-- The tag of an image names a layout, so finding out the layout never fails. -/
theorem exists_detects (given : Option Layout) (bytes : List UInt8) :
    ∃ warnings l body, Detects given bytes warnings l body ∧ ListedAs given bytes l body := by
  cases given with
  | some l => exact ⟨[], l, bytes, detects_given l bytes, .given⟩
  | none =>
    by_cases himage : Image.isImage bytes = true
    · obtain ⟨image, rfl⟩ := Image.isImage_iff.mp himage
      exact ⟨[], image.layout, _, detects_toBytes image, .image himage⟩
    · exact ⟨_, .v1, bytes, detects_of_not_isImage himage, .untagged himage⟩

theorem ListedAs.eq_of_isImage {bytes memory : List UInt8} {l : Layout}
    (h : ListedAs none bytes l memory) (himage : Image.isImage bytes = true) :
    bytes = l.tag :: memory := by
  cases h with
  | image => rfl
  | untagged hno => exact absurd himage hno

theorem ListedAs.bytes_eq {given : Option Layout} {bytes body : List UInt8} {l : Layout}
    (h : ListedAs given bytes l body) :
    (if given.isNone && Image.isImage bytes then l.tag :: body else body) = bytes := by
  cases h with
  | given => rfl
  | image himage => simp [himage]
  | untagged hno => simp [hno]

theorem Command.ReadsStream.refuses {files : Files} {command : Command} {file : String} {l : Layout}
    (h : command.ReadsStream file l) {bytes : List UInt8} {cause : Error}
    (hread : files.read file = .ok bytes) (herror : Stream.decode l bytes = .error cause) :
    (command.run files).Refuses (.code cause) := by
  cases h with
  | disasm => exact refuses_run_disasm hread (detects_given l bytes) herror
  | convert target output =>
    have heval := eval_convertFile_of_error (w := { files }) hread herror target output
    exact Command.refuses_of_error _ heval

section Ending

variable {files : Files} {file : String} {bytes : List UInt8}

theorem isImage_iff_lists (hread : files.read file = .ok bytes) :
    Image.isImage bytes = true ↔ ∃ image, Image.ofBytes bytes = .ok image ∧
      ((Command.disasm file none).run files).Lists [] image.layout image.code := by
  constructor
  · intro h
    obtain ⟨image, rfl⟩ := Image.isImage_iff.mp h
    exact ⟨image, Image.ofBytes_toBytes image,
      lists_run_disasm hread (detects_toBytes image) (Stream.decode_encode _ _)⟩
  · intro h
    obtain ⟨image, hbytes, -⟩ := h
    exact Image.isImage_iff.mpr ⟨image, Image.toBytes_of_ofBytes hbytes⟩

end Ending

/-- The tag and the length tell exactly which bytes can be read as an image. The tag of such bytes
names the layout in which all the bytes behind it are code. So `disasm`, which takes them apart by
itself, cannot fail on them, finds the same layout and lists the same code without a warning. -/
theorem isImage_iff_and_disasm_eq (bytes : List UInt8) :
    (Image.isImage bytes = true ↔ ∃ image, Image.ofBytes bytes = .ok image) ∧
    ∀ image, Image.ofBytes bytes = .ok image ↔
      ∃ (tag : UInt8) (body : List UInt8), bytes = tag :: body ∧
        Layout.ofTag tag = .ok image.layout ∧
        Stream.decode image.layout body = .ok image.code ∧
        Detects none bytes [] image.layout body ∧
        ∀ (w : World) (file : String), w.files.read file = .ok bytes →
          (printListing file none).run.eval w =
            (.ok (), (w.record (decodeEvents image.layout image.code)).print
              (Text.utf8 (listing image.layout image.code))) := by
  refine ⟨?_, fun image => ?_⟩
  · simp only [Image.isImage_iff, Image.ofBytes_eq_ok_iff]
  · rw [Image.ofBytes_eq_ok_iff]
    constructor
    · intro h
      subst h
      have hcode := Stream.decode_encode image.layout image.code
      exact ⟨image.layout.tag, _, rfl, Layout.ofTag_tag image.layout, hcode,
        detects_toBytes image,
        fun w file hread => eval_printListing_of_ok hread (detects_toBytes image) hcode⟩
    · intro h
      obtain ⟨tag, body, rfl, htag, hcode, -⟩ := h
      rw [Image.toBytes, Layout.ofTag_eq_ok_iff.mp htag, Stream.encode_of_decode hcode]

end Tribyte.Cli
