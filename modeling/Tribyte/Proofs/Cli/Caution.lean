import Mathlib.Logic.Relation
import Tribyte.Cli.Run

/-!
# Nothing is put out before the last failure

Effects are cautious if they print or write only when nothing can go wrong any more: behind the
first print, or the first write that is granted, all ends are good, whatever the answers are. A step
keeps this as long as nothing has been printed or written. So a cautious run ends well, or it leaves
the standard output and the files as they were. All commands are cautious.
-/

namespace Tribyte.Cli

namespace Effects

variable {α β : Type}

inductive Step : Effects α × World → Effects α × World → Prop
  | log (event : Event) (next : Effects α) (w : World) :
      Step (.log event next, w) (next, w.log event)
  | print (bytes : List UInt8) (next : Effects α) (w : World) :
      Step (.print bytes next, w) (next, w.print bytes)
  | read (path : String) (next : Except FileError (List UInt8) → Effects α) (w : World) :
      Step (.read path next, w) (next (w.files.read path), w)
  | write {path : String} {bytes : List UInt8} {files : Files} {w : World}
      (next : Except FileError Unit → Effects α) : w.files.write path bytes = .ok files →
      Step (.write path bytes next, w) (next (.ok ()), { w with files })
  | writeFails {path : String} {bytes : List UInt8} {cause : FileError} {w : World}
      (next : Except FileError Unit → Effects α) : w.files.write path bytes = .error cause →
      Step (.write path bytes next, w) (next (.error cause), w)

theorem steps_eval (a : Effects α) (w : World) :
    Relation.ReflTransGen Step (a, w) (.done (a.eval w).1, (a.eval w).2) := by
  induction a generalizing w with
  | done value => exact .refl
  | log event next ih => exact .head (.log event next w) (ih _)
  | print bytes next ih => exact .head (.print bytes next w) (ih _)
  | read path next ih => exact .head (.read path next w) (ih _ _)
  | write path bytes next ih =>
    cases h : w.files.write path bytes with
    | ok files =>
      rw [eval, World.write, h]
      exact .head (.write next h) (ih _ _)
    | error cause =>
      rw [eval, World.write, h]
      exact .head (.writeFails next h) (ih _ _)

/-- Whatever the answers are, the value at the end is a good one. -/
inductive Ends (good : α → Prop) : Effects α → Prop
  | done {value : α} : good value → Ends good (.done value)
  | log {event : Event} {next : Effects α} : Ends good next → Ends good (.log event next)
  | print {bytes : List UInt8} {next : Effects α} : Ends good next → Ends good (.print bytes next)
  | read {path : String} {next : Except FileError (List UInt8) → Effects α} :
      (∀ answer, Ends good (next answer)) → Ends good (.read path next)
  | write {path : String} {bytes : List UInt8} {next : Except FileError Unit → Effects α} :
      (∀ answer, Ends good (next answer)) → Ends good (.write path bytes next)

/-- Behind what is printed, or written with success, there are only good ends. -/
inductive Cautious (good : α → Prop) : Effects α → Prop
  | done (value : α) : Cautious good (.done value)
  | log {event : Event} {next : Effects α} : Cautious good next → Cautious good (.log event next)
  | print {bytes : List UInt8} {next : Effects α} :
      Ends good next → Cautious good (.print bytes next)
  | read {path : String} {next : Except FileError (List UInt8) → Effects α} :
      (∀ answer, Cautious good (next answer)) → Cautious good (.read path next)
  | write {path : String} {bytes : List UInt8} {next : Except FileError Unit → Effects α} :
      Ends good (next (.ok ())) → (∀ cause, Cautious good (next (.error cause))) →
      Cautious good (.write path bytes next)

inductive Quiet : Effects α → Prop
  | done (value : α) : Quiet (.done value)
  | log {event : Event} {next : Effects α} : Quiet next → Quiet (.log event next)
  | read {path : String} {next : Except FileError (List UInt8) → Effects α} :
      (∀ answer, Quiet (next answer)) → Quiet (.read path next)

variable {good : α → Prop} {fine : β → Prop} {a : Effects α} {f : α → Effects β}

theorem Ends.cautious (h : Ends good a) : Cautious good a := by
  induction h with
  | done _ => exact .done _
  | log _ ih => exact .log ih
  | print hnext _ => exact .print hnext
  | read _ ih => exact .read ih
  | write hnext ih => exact .write (hnext _) fun _ => ih _

theorem Ends.bind (h : Ends good a) (hf : ∀ value, good value → Ends fine (f value)) :
    Ends fine (a >>= f) := by
  change Ends fine (a.bind f)
  induction h with
  | done hvalue => exact hf _ hvalue
  | log _ ih => exact .log ih
  | print _ ih => exact .print ih
  | read _ ih => exact .read ih
  | write _ ih => exact .write ih

theorem Cautious.bind (h : Cautious good a) (hf : ∀ value, Cautious fine (f value))
    (hgood : ∀ value, good value → Ends fine (f value)) : Cautious fine (a >>= f) := by
  change Cautious fine (a.bind f)
  induction h with
  | done value => exact hf value
  | log _ ih => exact .log ih
  | print hnext => exact .print (hnext.bind hgood)
  | read _ ih => exact .read ih
  | write hnext _ ih => exact .write (hnext.bind hgood) ih

theorem Quiet.bind (h : Quiet a) (hf : ∀ value, Quiet (f value)) : Quiet (a >>= f) := by
  change Quiet (a.bind f)
  induction h with
  | done value => exact hf value
  | log _ ih => exact .log ih
  | read _ ih => exact .read ih

theorem Quiet.bind_cautious (h : Quiet a) (hf : ∀ value, Cautious fine (f value)) :
    Cautious fine (a >>= f) := by
  change Cautious fine (a.bind f)
  induction h with
  | done value => exact hf value
  | log _ ih => exact .log ih
  | read _ ih => exact .read ih

theorem Ends.step {state next : Effects α × World} (h : Ends good state.1)
    (hstep : Step state next) : Ends good next.1 := by
  cases hstep with
  | log event next w =>
    cases h with
    | log hnext => exact hnext
  | print bytes next w =>
    cases h with
    | print hnext => exact hnext
  | read path next w =>
    cases h with
    | read hnext => exact hnext _
  | write next hwrite | writeFails next hwrite =>
    cases h with
    | write hnext => exact hnext _

/-- Nothing is put out so far and the rest is cautious, or all that can come is a good end. -/
def Guarded (good : α → Prop) (start : World) (state : Effects α × World) : Prop :=
  (Cautious good state.1 ∧ state.2.stdout = start.stdout ∧ state.2.files = start.files) ∨
    Ends good state.1

theorem Guarded.step {start : World} {state next : Effects α × World}
    (h : Guarded good start state) (hstep : Step state next) : Guarded good start next := by
  rcases h with ⟨hcautious, hstdout, hfiles⟩ | hends
  · cases hstep with
    | log event next w =>
      cases hcautious with
      | log hnext => exact .inl ⟨hnext, hstdout, hfiles⟩
    | print bytes next w =>
      cases hcautious with
      | print hnext => exact .inr hnext
    | read path next w =>
      cases hcautious with
      | read hnext => exact .inl ⟨hnext _, hstdout, hfiles⟩
    | write next hwrite =>
      cases hcautious with
      | write hok herror => exact .inr hok
    | writeFails next hwrite =>
      cases hcautious with
      | write hok herror => exact .inl ⟨herror _, hstdout, hfiles⟩
  · exact .inr (hends.step hstep)

theorem Guarded.steps {start : World} {state next : Effects α × World}
    (h : Guarded good start state) (hsteps : Relation.ReflTransGen Step state next) :
    Guarded good start next := by
  induction hsteps with
  | refl => exact h
  | tail _ hstep ih => exact ih.step hstep

theorem Cautious.eval (h : Cautious good a) (w : World) :
    good (a.eval w).1 ∨ (a.eval w).2.stdout = w.stdout ∧ (a.eval w).2.files = w.files := by
  have hstart : Guarded good w (a, w) := .inl ⟨h, rfl, rfl⟩
  rcases hstart.steps (steps_eval a w) with ⟨-, huntouched⟩ | hends
  · exact .inr huntouched
  · cases hends with
    | done hgood => exact .inl hgood

end Effects

namespace Fallible

open Effects

variable {α β : Type} {x : Fallible α} {f : α → Fallible β}

def Succeeds (r : Except Failure α) : Prop := ∃ a, r = .ok a

theorem ends_bind (h : Ends Succeeds x.run) (hf : ∀ a, Ends Succeeds (f a).run) :
    Ends Succeeds (x >>= f).run := by
  refine h.bind fun r hr => ?_
  obtain ⟨a, rfl⟩ := hr
  exact hf a

theorem quiet_bind (h : Quiet x.run) (hf : ∀ a, Quiet (f a).run) : Quiet (x >>= f).run := by
  refine h.bind fun r => ?_
  cases r with
  | ok a => exact hf a
  | error failure => exact .done _

theorem cautious_bind (h : Quiet x.run) (hf : ∀ a, Cautious Succeeds (f a).run) :
    Cautious Succeeds (x >>= f).run := by
  refine h.bind_cautious fun r => ?_
  cases r with
  | ok a => exact hf a
  | error failure => exact .done _

theorem quiet_log (event : Event) : Quiet (log event).run := .log (.done _)

theorem quiet_orFail (r : Except Error α) : Quiet (orFail r).run := by
  cases r <;> exact .done _

theorem quiet_forM_log (f : α → Event) (xs : List α) :
    Quiet (forM xs fun x => log (f x) : Fallible PUnit).run := by
  induction xs with
  | nil => exact .done _
  | cons x xs ih => exact quiet_bind (quiet_log _) fun _ => ih

theorem quiet_readFile (path : String) : Quiet (readFile path).run := by
  refine .read fun answer => ?_
  cases answer <;> exact .done _

theorem quiet_readText (path : String) : Quiet (readText path).run := by
  refine quiet_bind (quiet_readFile path) fun bytes => ?_
  cases Text.ofUtf8? bytes <;> exact .done _

theorem ends_forM_printLine (lines : List Text) : Ends Succeeds (forM lines printLine).run := by
  induction lines with
  | nil => exact .done ⟨_, rfl⟩
  | cons line lines ih => exact ends_bind (.print (.done ⟨_, rfl⟩)) fun _ => ih

theorem cautious_writeOutput (path? : Option String) (bytes : List UInt8) :
    Cautious Succeeds (writeOutput path? bytes).run := by
  cases path? with
  | none => exact .print (.done ⟨_, rfl⟩)
  | some path => exact .write (.log (.done ⟨_, rfl⟩)) fun _ => .done _

end Fallible

open Effects Fallible

theorem quiet_decodeStream (l : Layout) (bytes : List UInt8) :
    Quiet (decodeStream l bytes).run :=
  quiet_bind (quiet_forM_log _ _) fun _ =>
    quiet_bind (quiet_orFail _) fun _ => quiet_bind (quiet_log _) fun _ => .done _

theorem quiet_detect (given : Option Layout) (bytes : List UInt8) :
    Quiet (detect given bytes).run := by
  have hassume (bytes : List UInt8) : Quiet (assumeFirst bytes).run :=
    quiet_bind (quiet_log _) fun _ => .done _
  cases given with
  | some l => exact .done _
  | none =>
    cases bytes with
    | nil => exact hassume []
    | cons tag body =>
      rw [detect]
      split
      · exact quiet_bind (quiet_orFail _) fun _ => .done _
      · exact hassume (tag :: body)

theorem cautious_printListing (file : String) (given : Option Layout) :
    Cautious Succeeds (printListing file given).run := by
  refine cautious_bind (quiet_readFile file) fun bytes =>
    cautious_bind (quiet_detect given bytes) fun found =>
      cautious_bind (quiet_decodeStream found.1 found.2) fun code => ?_
  -- the whole stream is decoded, so the first line is also the first that can be printed
  exact (ends_forM_printLine (header found.1 :: listingRows code)).cautious

theorem cautious_assembleFile (file : String) (l : Layout) (output : Option String)
    (tagged : Bool) : Cautious Succeeds (assembleFile file l output tagged).run :=
  cautious_bind (quiet_readText file) fun _ => cautious_bind (quiet_orFail _) fun _ =>
    cautious_bind (quiet_log _) fun _ => cautious_writeOutput _ _

theorem cautious_convertFile (file : String) (source target : Layout) (output : Option String) :
    Cautious Succeeds (convertFile file source target output).run := by
  have hwarn : Quiet (warnIfSame source target).run := by
    unfold warnIfSame
    split
    · exact quiet_log _
    · exact .done _
  exact cautious_bind hwarn fun _ => cautious_bind (quiet_readFile file) fun bytes =>
    cautious_bind (quiet_decodeStream source bytes) fun _ =>
      cautious_bind (quiet_log _) fun _ => cautious_writeOutput _ _

theorem Command.cautious_body (command : Command) : Cautious Succeeds command.body.run := by
  cases command with
  | disasm file given => exact cautious_printListing file given
  | asm file l output tagged => exact cautious_assembleFile file l output tagged
  | convert file source target output => exact cautious_convertFile file source target output
  | constants => exact (ends_forM_printLine _).cautious

theorem Command.cautious_effects (command : Command) : Cautious (· = 0) command.effects := by
  refine command.cautious_body.bind (fun r => ?_) fun r hr => ?_
  · cases r with
    | ok _ => exact .done 0
    | error failure => exact .log (.done 1)
  · obtain ⟨_, rfl⟩ := hr
    exact .done rfl

theorem cautious_program (arguments : List String) : Cautious (· = 0) (program arguments) := by
  unfold program
  split
  · exact .print (.done rfl)
  · exact .done 2
  · exact Command.cautious_effects _

end Tribyte.Cli
