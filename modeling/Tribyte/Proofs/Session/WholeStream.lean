import Tribyte.Proofs.Image
import Tribyte.Proofs.Session.Run
import Tribyte.Proofs.Stream.Transcoding

/-!
# Whole instructions stay whole

Encoding, transcoding and taking an instruction from the front put whole instructions in the place
of whole instructions. A session that starts with no bytes and is never given others, cut or tagged
ones therefore always holds a stream that can be read, and never an image.
-/

namespace Tribyte

theorem Layout.readHead_encode_append (l : Layout) (i : Instruction) (rest : List UInt8) :
    l.readHead (l.encode i ++ rest) = .ok (i, Instruction.width) := by
  obtain ⟨a, b, c, hencode, hunpack⟩ := l.exists_encode_eq i
  rw [hencode, List.cons_append, List.cons_append, List.singleton_append, readHead_cons, hunpack]

inductive Step.KeepsWhole : Step → Prop
  | keepsBytes {e : Step} : e.KeepsBytes → KeepsWhole e
  | encode : KeepsWhole .encode
  | transcode (target : Layout) : KeepsWhole (.transcode target)
  | take : KeepsWhole .take

theorem Step.keepsWhole_or (e : Step) :
    e.KeepsWhole ∨ (∃ bytes, e = .append bytes) ∨ (∃ length, e = .truncate length) ∨
      e = .saveImage := by
  cases e with
  | append bytes => exact .inr (.inl ⟨bytes, rfl⟩)
  | truncate length => exact .inr (.inr (.inl ⟨length, rfl⟩))
  | saveImage => exact .inr (.inr (.inr rfl))
  | encode => exact .inl .encode
  | transcode target => exact .inl (.transcode target)
  | take => exact .inl .take
  | useName name => exact .inl (.keepsBytes (.useName name))
  | useTag tag => exact .inl (.keepsBytes (.useTag tag))
  | assemble source => exact .inl (.keepsBytes (.assemble source))
  | push op arg1 arg2 => exact .inl (.keepsBytes (.push op arg1 arg2))
  | clear => exact .inl (.keepsBytes .clear)
  | decode => exact .inl (.keepsBytes .decode)
  | loadImage => exact .inl (.keepsBytes .loadImage)
  | probe => exact .inl (.keepsBytes .probe)
  | disassemble => exact .inl (.keepsBytes .disassemble)
  | reassemble => exact .inl (.keepsBytes .reassemble)

namespace Session

structure HoldsStream (t : Session) : Prop where
  length : 3 ∣ t.bytes.length
  reads : ∃ code, Stream.encode t.layout code = t.bytes ∧
    t.step .decode = (.ok .done, { t with code := code }) ∧
    ∀ target, t.step (.transcode target) =
      (.ok .done, { t with layout := target, bytes := Stream.encode target code })
  probe : t.step .probe = (.ok (.isImage false), t)
  loadImage : ∃ cause, t.step .loadImage = (.error cause, t)
  take : (t.step .take).1 = if t.bytes = [] then .error (.invalidLength 3 0) else .ok .done

variable {t : Session} {code : List Instruction}

theorem step_decode_encode (h : Stream.encode t.layout code = t.bytes) :
    t.step .decode = (.ok .done, { t with code := code }) := by
  rw [step_decode, Stream.decode_eq_ok_iff.mpr h]
  rfl

theorem step_transcode_encode (h : Stream.encode t.layout code = t.bytes) (target : Layout) :
    t.step (.transcode target) =
      (.ok .done, { t with layout := target, bytes := Stream.encode target code }) := by
  rw [step_transcode, ← h, Stream.transcode_encode]
  rfl

theorem step_take_nil (h : t.bytes = []) : t.step .take = (.error (.invalidLength 3 0), t) := by
  rw [step_take, h, Layout.readHead_of_length_lt (by simp)]
  rfl

theorem step_take_encode {i : Instruction} (h : Stream.encode t.layout (i :: code) = t.bytes) :
    t.step .take =
      (.ok .done, { t with code := t.code ++ [i], bytes := Stream.encode t.layout code }) := by
  rw [step_take, ← h, Stream.encode_cons, Layout.readHead_encode_append]
  rfl

theorem three_dvd_length_step {e : Step} (h : e.KeepsWhole) (ht : 3 ∣ t.bytes.length) :
    3 ∣ (t.step e).2.bytes.length := by
  cases h with
  | keepsBytes he =>
    rw [bytes_step he]
    exact ht
  | encode => exact Stream.three_dvd_length_encode t.layout t.code
  | transcode target =>
    obtain ⟨code, hbytes⟩ := Stream.exists_encode_of_three_dvd t.layout ht
    rw [step_transcode_encode hbytes]
    exact Stream.three_dvd_length_encode target code
  | take =>
    obtain ⟨code, hbytes⟩ := Stream.exists_encode_of_three_dvd t.layout ht
    cases code with
    | nil =>
      rw [step_take_nil hbytes.symm]
      exact ht
    | cons i code =>
      rw [step_take_encode hbytes]
      exact Stream.three_dvd_length_encode t.layout code

theorem holdsStream_of_three_dvd (h : 3 ∣ t.bytes.length) : t.HoldsStream where
  length := h
  reads := by
    obtain ⟨code, hbytes⟩ := Stream.exists_encode_of_three_dvd t.layout h
    exact ⟨code, hbytes, step_decode_encode hbytes, step_transcode_encode hbytes⟩
  probe := by
    have hno : Image.isImage t.bytes = false :=
      Bool.eq_false_iff.mpr fun himage => Image.not_three_dvd_length himage h
    have hprobe : t.step .probe = (.ok (.isImage (Image.isImage t.bytes)), t) := rfl
    rw [hprobe, hno]
  loadImage := by
    rw [step_loadImage]
    cases himage : Image.ofBytes t.bytes with
    | ok image =>
      have hyes := Image.isImage_toBytes image
      rw [Image.toBytes_of_ofBytes himage] at hyes
      exact absurd h (Image.not_three_dvd_length hyes)
    | error cause => exact ⟨cause, rfl⟩
  take := by
    obtain ⟨code, hbytes⟩ := Stream.exists_encode_of_three_dvd t.layout h
    cases code with
    | nil =>
      have hnil : t.bytes = [] := hbytes.symm
      rw [step_take_nil hnil, if_pos hnil]
    | cons i code =>
      have hne : t.bytes ≠ [] := by
        rw [← hbytes]
        exact List.cons_ne_nil _ _
      rw [step_take_encode hbytes, if_neg hne]

/-- A run from the start that neither appends nor truncates nor saves an image goes through sessions
with whole instructions only. -/
theorem holdsStream_of_mem_states {steps : List Step}
    (happend : ∀ bytes, Step.append bytes ∉ steps) (htruncate : ∀ length, .truncate length ∉ steps)
    (hsave : .saveImage ∉ steps) :
    let start : Session := {}
    start.run steps = List.zipWith step (start.states steps) steps ∧
      ∀ t ∈ start.states steps, t.HoldsStream := by
  intro start
  have hkeeps : ∀ e ∈ steps, e.KeepsWhole := by
    intro e he
    obtain hwhole | ⟨bytes, rfl⟩ | ⟨length, rfl⟩ | rfl := e.keepsWhole_or
    · exact hwhole
    · exact absurd he (happend bytes)
    · exact absurd he (htruncate length)
    · exact absurd he hsave
  have hlength : ∀ t ∈ start.states steps, 3 ∣ t.bytes.length :=
    forall_states (Nat.dvd_zero 3) fun e he t ht => three_dvd_length_step (hkeeps e he) ht
  exact ⟨run_eq_zipWith start steps, fun t ht => holdsStream_of_three_dvd (hlength t ht)⟩

theorem holdsStream_of_mem_states_taken :
    let steps : List Step :=
      [.push 1 2 3, .push 4 5 6, .useTag 2, .encode, .transcode .v1, .loadImage, .take]
    let last : Session :=
      { layout := .v1, code := [⟨1, 2, 3⟩, ⟨4, 5, 6⟩, ⟨1, 2, 3⟩], bytes := [4, 5, 6] }
    (∀ bytes, Step.append bytes ∉ steps) ∧ (∀ length, .truncate length ∉ steps) ∧
      .saveImage ∉ steps ∧ last ∈ ({} : Session).states steps ∧ last.HoldsStream := by
  intro steps last
  have happend : ∀ bytes, Step.append bytes ∉ steps := by simp [steps]
  have htruncate : ∀ length, .truncate length ∉ steps := by simp [steps]
  have hsave : .saveImage ∉ steps := by simp [steps]
  have hlast : last ∈ ({} : Session).states steps := by decide
  exact ⟨happend, htruncate, hsave, hlast,
    (holdsStream_of_mem_states happend htruncate hsave).2 last hlast⟩

end Session

end Tribyte
