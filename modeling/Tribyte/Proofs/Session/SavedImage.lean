import Tribyte.Proofs.Assembly.Concatenation
import Tribyte.Proofs.Image
import Tribyte.Proofs.Session.Run
import Tribyte.Proofs.Stream.Transcoding

/-!
# A saved image stays

The bytes of an image are no whole stream in any layout, so decoding and transcoding refuse them and
leave them. As long as no step puts other bytes there, the image is recognised and can be loaded,
whatever has become of the layout and the code meanwhile.
-/

namespace Tribyte

theorem Image.decode_toBytes (image : Image) (l : Layout) :
    Stream.decode l image.toBytes = .error (.truncated (3 * image.code.length) 1) := by
  rw [decode_eq_truncated (isImage_toBytes image), length_toBytes, Nat.add_sub_cancel]

/-- Steps that an image in the bytes survives. -/
inductive Step.KeepsImage : Step → Prop
  | keepsBytes {e : Step} : e.KeepsBytes → KeepsImage e
  | transcode (target : Layout) : KeepsImage (.transcode target)

namespace Session

structure HoldsImage (t : Session) (image : Image) : Prop where
  bytes : t.bytes = image.toBytes
  decode : t.step .decode = (.error (.truncated (3 * image.code.length) 1), t)
  transcode : ∀ target,
    t.step (.transcode target) = (.error (.truncated (3 * image.code.length) 1), t)
  probe : t.step .probe = (.ok (.isImage true), t)
  reassemble : t.step .reassemble = (.ok .done, t)
  loadImage : t.step .loadImage = (.ok .done, { t with layout := image.layout, code := image.code })

variable {t : Session} {image : Image}

theorem step_transcode_toBytes (h : t.bytes = image.toBytes) (target : Layout) :
    t.step (.transcode target) = (.error (.truncated (3 * image.code.length) 1), t) := by
  rw [step_transcode, h, Stream.transcode_of_decode_error (image.decode_toBytes t.layout)]
  rfl

theorem step_reassemble_eq_self (t : Session) : t.step .reassemble = (.ok .done, t) := by
  have hcode : Assembly.assemble (Assembly.disassemble t.code) = .ok t.code := by
    have happend := Assembly.assemble_disassemble_append t.code []
    rw [List.append_nil, show Assembly.assemble [] = .ok [] from rfl] at happend
    rw [happend, Except.map, List.append_nil]
    rfl
  rw [step_reassemble, hcode]
  rfl

theorem holdsImage_of_bytes (h : t.bytes = image.toBytes) : t.HoldsImage image where
  bytes := h
  decode := by
    rw [step_decode, h, image.decode_toBytes]
    rfl
  transcode := step_transcode_toBytes h
  probe := by
    have hprobe : t.step .probe = (.ok (.isImage (Image.isImage t.bytes)), t) := rfl
    rw [hprobe, h, Image.isImage_toBytes]
  reassemble := step_reassemble_eq_self t
  loadImage := by
    rw [step_loadImage, h, Image.ofBytes_toBytes]
    rfl

theorem bytes_step_of_keepsImage {e : Step} (h : e.KeepsImage) (hbytes : t.bytes = image.toBytes) :
    (t.step e).2.bytes = image.toBytes := by
  cases h with
  | keepsBytes he => rw [bytes_step he, hbytes]
  | transcode target => rw [step_transcode_toBytes hbytes, hbytes]

/-- Saving leaves a session that holds the image of the layout and the code, and so do all sessions
that a run goes through from there by steps of these kinds, failed ones included. -/
theorem holdsImage_of_mem_states_saveImage (s : Session) {steps : List Step}
    (h : ∀ e ∈ steps, e.KeepsImage) :
    let saved := (s.step .saveImage).2
    saved.run steps = List.zipWith step (saved.states steps) steps ∧
      ∀ t ∈ saved.states steps, t.HoldsImage ⟨s.layout, s.code⟩ := by
  intro saved
  have hbytes : ∀ t ∈ saved.states steps, t.bytes = (Image.mk s.layout s.code).toBytes :=
    forall_states rfl fun e he t ht => bytes_step_of_keepsImage (h e he) ht
  exact ⟨run_eq_zipWith saved steps, fun t ht => holdsImage_of_bytes (hbytes t ht)⟩

theorem holdsImage_of_mem_states_saveImage_cleared :
    let s : Session := { layout := .v2, code := [⟨0xC0, 4, 5⟩] }
    let steps : List Step :=
      [.clear, .useTag 1, .transcode .v2, .push 300 0 0, .assemble "imm a 1".toList]
    let last : Session := { layout := .v1, code := [⟨1, 0x10, 1⟩], bytes := [2, 5, 0xC0, 4] }
    (∀ e ∈ steps, e.KeepsImage) ∧ last ∈ (s.step .saveImage).2.states steps ∧
      last.HoldsImage ⟨.v2, [⟨0xC0, 4, 5⟩]⟩ := by
  intro s steps last
  have hsteps : ∀ e ∈ steps, e.KeepsImage := by
    simp only [steps, List.forall_mem_cons]
    exact ⟨.keepsBytes .clear, .keepsBytes (.useTag 1), .transcode .v2,
      .keepsBytes (.push 300 0 0), .keepsBytes (.assemble _), by simp⟩
  have hlast : last ∈ (s.step .saveImage).2.states steps := by decide
  exact ⟨hsteps, hlast, (holdsImage_of_mem_states_saveImage s hsteps).2 last hlast⟩

end Session

end Tribyte
