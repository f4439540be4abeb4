import Tribyte.Session

/-!
# Runs of a session

A run goes from session to session, and each of its outcomes is that of a step in one of them. What
holds at the start and is kept by every step holds all along. Most steps need a result, of reading
bytes or a text, and either go on with it or leave the session as it was.
-/

namespace Tribyte

inductive Step.KeepsBytes : Step → Prop
  | useName (name : String) : KeepsBytes (.useName name)
  | useTag (tag : UInt8) : KeepsBytes (.useTag tag)
  | assemble (source : Text) : KeepsBytes (.assemble source)
  | push (op arg1 arg2 : Nat) : KeepsBytes (.push op arg1 arg2)
  | clear : KeepsBytes .clear
  | decode : KeepsBytes .decode
  | loadImage : KeepsBytes .loadImage
  | probe : KeepsBytes .probe
  | disassemble : KeepsBytes .disassemble
  | reassemble : KeepsBytes .reassemble

namespace Session

/-- The session in front of each step of a run, and the one that the run ends with. -/
def states (s : Session) (steps : List Step) : List Session := s :: (s.run steps).map Prod.snd

theorem states_cons (s : Session) (e : Step) (steps : List Step) :
    s.states (e :: steps) = s :: (s.step e).2.states steps := rfl

theorem run_eq_zipWith (s : Session) (steps : List Step) :
    s.run steps = List.zipWith step (s.states steps) steps := by
  induction steps generalizing s with
  | nil => rfl
  | cons e steps ih => rw [run, ih, states_cons, List.zipWith_cons_cons]

theorem forall_states {P : Session → Prop} {s : Session} {steps : List Step} (hs : P s)
    (hstep : ∀ e ∈ steps, ∀ t, P t → P (t.step e).2) : ∀ t ∈ s.states steps, P t := by
  induction steps generalizing s with
  | nil =>
    intro t ht
    obtain rfl := List.mem_singleton.mp ht
    exact hs
  | cons e steps ih =>
    obtain ⟨hfirst, hrest⟩ := List.forall_mem_cons.mp hstep
    rw [states_cons]
    exact List.forall_mem_cons.mpr ⟨hs, ih (hfirst s hs) hrest⟩

/-- What a step comes to that goes on with a result, if there is one. -/
def settle {α : Type} (s : Session) (result : Except Error α) (next : α → Session) :
    Except Error Answer × Session :=
  match result with
  | .ok a => (.ok .done, next a)
  | .error cause => (.error cause, s)

section

variable {α : Type} {s : Session} {e : Step} {result : Except Error α} {next : α → Session}

theorem step_eq_settle (h : s.apply e = result >>= fun a => pure (.done, next a)) :
    s.step e = s.settle result next := by
  rw [step, h]
  cases result <;> rfl

theorem bytes_of_settle (h : s.step e = s.settle result next)
    (hnext : ∀ a, (next a).bytes = s.bytes) : (s.step e).2.bytes = s.bytes := by
  rw [h]
  cases result with
  | ok a => exact hnext a
  | error cause => rfl

end

theorem step_useName (s : Session) (name : String) :
    s.step (.useName name) = s.settle (Layout.ofName name) ({ s with layout := · }) :=
  step_eq_settle rfl

theorem step_useTag (s : Session) (tag : UInt8) :
    s.step (.useTag tag) = s.settle (Layout.ofTag tag) ({ s with layout := · }) :=
  step_eq_settle rfl

theorem step_assemble (s : Session) (source : Text) :
    s.step (.assemble source) =
      s.settle (Assembly.assemble source) fun code => { s with code := s.code ++ code } :=
  step_eq_settle rfl

theorem step_push (s : Session) (op arg1 arg2 : Nat) :
    s.step (.push op arg1 arg2) =
      s.settle (Instruction.ofNats op arg1 arg2) fun i => { s with code := s.code ++ [i] } :=
  step_eq_settle rfl

theorem step_decode (s : Session) :
    s.step .decode = s.settle (Stream.decode s.layout s.bytes) ({ s with code := · }) :=
  step_eq_settle rfl

theorem step_transcode (s : Session) (target : Layout) :
    s.step (.transcode target) = s.settle (Stream.transcode s.layout target s.bytes)
      ({ s with layout := target, bytes := · }) :=
  step_eq_settle rfl

theorem step_loadImage (s : Session) :
    s.step .loadImage = s.settle (Image.ofBytes s.bytes) fun image =>
      { s with layout := image.layout, code := image.code } :=
  step_eq_settle rfl

theorem step_take (s : Session) :
    s.step .take = s.settle (s.layout.readHead s.bytes) fun (i, size) =>
      { s with code := s.code ++ [i], bytes := s.bytes.drop size } :=
  step_eq_settle rfl

theorem step_reassemble (s : Session) :
    s.step .reassemble =
      s.settle (Assembly.assemble (Assembly.disassemble s.code)) ({ s with code := · }) :=
  step_eq_settle rfl

theorem bytes_step {s : Session} {e : Step} (h : e.KeepsBytes) : (s.step e).2.bytes = s.bytes := by
  cases h with
  | clear => rfl
  | probe => rfl
  | disassemble => rfl
  | useName name => exact bytes_of_settle (step_useName s name) fun _ => rfl
  | useTag tag => exact bytes_of_settle (step_useTag s tag) fun _ => rfl
  | assemble source => exact bytes_of_settle (step_assemble s source) fun _ => rfl
  | push op arg1 arg2 => exact bytes_of_settle (step_push s op arg1 arg2) fun _ => rfl
  | decode => exact bytes_of_settle (step_decode s) fun _ => rfl
  | loadImage => exact bytes_of_settle (step_loadImage s) fun _ => rfl
  | reassemble => exact bytes_of_settle (step_reassemble s) fun _ => rfl

end Session

end Tribyte
