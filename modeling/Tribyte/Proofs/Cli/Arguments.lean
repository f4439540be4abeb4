import Tribyte.Cli.Arguments
import Tribyte.Proofs.Traversal

/-!
# An output file among the arguments

The place for an output file is filled at most once, and what is in it has no influence on how the
other arguments are read. So an output file can be added to every accepted call that could have one
and has none, and the command is the same but for its output.
-/

namespace Tribyte.Cli

/-- The second command puts into the file what the first prints. -/
inductive Command.Redirects (path : String) : Command → Command → Prop
  | asm (file : String) (l : Layout) (tagged : Bool) :
      Redirects path (.asm file l none tagged) (.asm file l (some path) tagged)
  | convert (file : String) (source target : Layout) :
      Redirects path (.convert file source target none)
        (.convert file source target (some path))

namespace Draft

def withOutput (d : Draft) (path : String) : Draft := { d with output := some path }

/-- Reads arguments without a look at the place for the output: what is there stays, and if nothing
is there in the end, something could have been there from the start. -/
structure Overlooks (read : Draft → Option Draft) : Prop where
  keeps {d e : Draft} : read d = some e → ∀ {path}, d.output = some path → e.output = some path
  passes {d e : Draft} : read d = some e → e.output = none →
    ∀ path, read (d.withOutput path) = some (e.withOutput path)

theorem overlooks_some : Overlooks some where
  keeps h _ hd := Option.some.inj h ▸ hd
  passes h _ path := congrArg (some <| withOutput · path) (Option.some.inj h)

theorem overlooks_none : Overlooks fun _ => none where
  keeps h := nomatch h
  passes h := nomatch h

theorem Overlooks.bind {first second : Draft → Option Draft} (h : Overlooks first)
    (h' : Overlooks second) : Overlooks fun d => (first d).bind second where
  keeps hread _ hd := by
    obtain ⟨m, hm, he⟩ := Option.bind_eq_some_iff.mp hread
    exact h'.keeps he (h.keeps hm hd)
  passes hread he path := by
    obtain ⟨m, hm, hme⟩ := Option.bind_eq_some_iff.mp hread
    -- an output taken on the way would still be there in the end
    have hnone : m.output = none := by
      cases hout : m.output with
      | none => rfl
      | some taken =>
        have htaken := h'.keeps hme hout
        rw [he] at htaken
        contradiction
    rw [h.passes hm hnone path]
    exact h'.passes hme he path

theorem overlooks_map {α : Type} {value? : Draft → Option α} {put : Draft → α → Draft}
    (hvalue : ∀ d path, value? (d.withOutput path) = value? d)
    (hput : ∀ d path a, put (d.withOutput path) a = (put d a).withOutput path)
    (houtput : ∀ d a, (put d a).output = d.output) :
    Overlooks fun d => (value? d).map (put d) where
  keeps h _ hd := by
    obtain ⟨a, -, rfl⟩ := Option.map_eq_some_iff.mp h
    rw [houtput, hd]
  passes h _ path := by
    obtain ⟨a, ha, rfl⟩ := Option.map_eq_some_iff.mp h
    rw [hvalue, ha, Option.map_some, hput]

theorem overlooks_operand? (s : Subcommand) (value : String) :
    Overlooks (operand? s · value) := by
  unfold operand?
  split
  · exact overlooks_map (fun _ _ => rfl) (fun _ _ _ => rfl) fun _ _ => rfl
  · exact overlooks_none

theorem overlooks_switch? (key : Key) : Overlooks (switch? · key) := by
  cases key with
  | tagged =>
    have hmap : (switch? · .tagged) = fun d : Draft =>
        (if d.tagged then none else some true).map ({ d with tagged := · }) := by
      funext d
      simp only [switch?]
      split <;> rfl
    rw [hmap]
    exact overlooks_map (fun _ _ => rfl) (fun _ _ _ => rfl) fun _ _ => rfl
  | format | source | target | output => exact overlooks_none

theorem overlooks_output (value : String) : Overlooks (setting? · .output value) := by
  constructor
  · intro d e h path hd
    rw [setting?, hd] at h
    contradiction
  · intro d e h hnone
    obtain ⟨out, hout, rfl⟩ := Option.map_eq_some_iff.mp h
    obtain rfl : out = none := hnone
    unfold fill? at hout
    split at hout <;> simp at hout

theorem overlooks_setting? (key : Key) (value : String) : Overlooks (setting? · key value) := by
  cases key with
  | output => exact overlooks_output value
  | tagged => exact overlooks_none
  | format | source | target =>
    exact overlooks_map (fun _ _ => rfl) (fun _ _ _ => rfl) fun _ _ => rfl

theorem overlooks_foldlM (s : Subcommand) (values : List String) :
    Overlooks fun d => values.foldlM (operand? s) d := by
  induction values with
  | nil => exact overlooks_some
  | cons value values ih => exact (overlooks_operand? s value).bind ih

theorem toOption_bind_orRefuse {α β : Type} (o : Option α) (f : α → Except Stop β) :
    (orRefuse o >>= f).toOption = o.bind fun a => (f a).toOption := by
  cases o <;> rfl

theorem toOption_orRefuse {α : Type} (o : Option α) : (orRefuse o).toOption = o := by
  cases o <;> rfl

theorem overlooks_scan (s : Subcommand) :
    ∀ arguments, Overlooks fun d => (scan s d arguments).toOption
  | [] => overlooks_some
  | argument :: rest => by
    have hrest := overlooks_scan s rest
    cases hform : Form.of s argument.toList with
    | operand =>
      simp only [scan, hform, toOption_bind_orRefuse]
      exact (overlooks_operand? s argument).bind hrest
    | endOfSettings =>
      simp only [scan, hform, toOption_orRefuse]
      exact overlooks_foldlM s rest
    | switch key =>
      simp only [scan, hform, toOption_bind_orRefuse]
      exact (overlooks_switch? key).bind hrest
    | attached key value =>
      simp only [scan, hform, toOption_bind_orRefuse]
      exact (overlooks_setting? key (String.ofList value)).bind hrest
    | detached key =>
      match rest with
      | [] =>
        simp only [scan, hform]
        exact overlooks_none
      | value :: rest =>
        by_cases hvalue : mayBeValue value.toList
        · simp only [scan, hform, hvalue, if_true, toOption_bind_orRefuse]
          exact (overlooks_setting? key value).bind (overlooks_scan s rest)
        · simp only [scan, hform, hvalue]
          exact overlooks_none
    | help | unknown =>
      simp only [scan, hform]
      exact overlooks_none

theorem scan_withOutput {s : Subcommand} {arguments : List String} {d e : Draft}
    (h : scan s d arguments = .ok e) (hnone : e.output = none) (path : String) :
    scan s (d.withOutput path) arguments = .ok (e.withOutput path) := by
  rw [← Traversal.toOption_eq_some_iff] at h ⊢
  exact (overlooks_scan s arguments).passes h hnone path

theorem scan_output_cons {s : Subcommand} (hs : .output ∈ s.keys) {path : String}
    (hpath : path ≠ "") (d : Draft) (hnone : d.output = none) (rest : List String) :
    scan s d (("-o=" ++ path) :: rest) = scan s (d.withOutput path) rest := by
  have hform : Form.of s ("-o=" ++ path).toList = .attached .output path.toList := by
    rw [String.toList_append]
    change Form.ofShort s ('o' :: '=' :: path.toList) = _
    rw [Form.ofShort, if_pos hs]
  simp only [scan, hform, String.ofList_toList, setting?, hnone, path?, if_neg hpath]
  rfl

end Draft

theorem Draft.command?_withOutput {s : Subcommand} {d : Draft} {plain redirected : Command}
    {path : String} (hcommand : d.command? s = some plain) (h : plain.Redirects path redirected) :
    .output ∈ s.keys ∧ d.output = none ∧ (d.withOutput path).command? s = some redirected := by
  obtain ⟨file, format, source, target, output, tagged⟩ := d
  cases s with
  | disasm =>
    obtain ⟨file, rfl, hcommand⟩ := Option.bind_eq_some_iff.mp hcommand
    obtain rfl := Option.some.inj hcommand
    cases h
  | asm =>
    obtain ⟨file, rfl, hcommand⟩ := Option.bind_eq_some_iff.mp hcommand
    obtain rfl := Option.some.inj hcommand
    cases h
    exact ⟨by decide, rfl, rfl⟩
  | convert =>
    obtain ⟨file, rfl, hcommand⟩ := Option.bind_eq_some_iff.mp hcommand
    obtain ⟨source, rfl, hcommand⟩ := Option.bind_eq_some_iff.mp hcommand
    obtain ⟨target, rfl, hcommand⟩ := Option.bind_eq_some_iff.mp hcommand
    obtain rfl := Option.some.inj hcommand
    cases h
    exact ⟨by decide, rfl, rfl⟩
  | constants =>
    obtain rfl := Option.some.inj hcommand
    cases h

theorem Subcommand.ofName?_name (s : Subcommand) : Subcommand.ofName? s.name = some s := by
  cases s <;> decide

theorem Subcommand.name_of_ofName? {name : String} {s : Subcommand}
    (h : Subcommand.ofName? name = some s) : s.name = name := by
  have hfound := List.find?_some h
  exact beq_iff_eq.mp hfound

theorem isHelp_name_cons (s : Subcommand) (rest : List String) :
    isHelp (s.name :: rest) = false := by
  cases s <;> cases rest <;> rfl

theorem orRefuse_eq_ok_iff {α : Type} {o : Option α} {a : α} :
    orRefuse o = .ok a ↔ o = some a := by
  cases o <;> simp [orRefuse]

theorem parse_cons (s : Subcommand) (rest : List String) :
    Command.parse (s.name :: rest) =
      Draft.scan s {} rest >>= fun d => orRefuse (d.command? s) := by
  unfold Command.parse
  simp only [isHelp_name_cons, if_neg Bool.false_ne_true, Subcommand.ofName?_name]
  rfl

theorem parse_eq_ok_iff {arguments : List String} {command : Command} :
    Command.parse arguments = .ok command ↔
      ∃ s rest d, arguments = Subcommand.name s :: rest ∧ Draft.scan s {} rest = .ok d ∧
        d.command? s = some command := by
  constructor
  · intro h
    unfold Command.parse at h
    split at h
    · contradiction
    · cases arguments with
      | nil => contradiction
      | cons name rest =>
        simp only [Traversal.bind_eq_ok_iff] at h
        obtain ⟨s, hname, d, hscan, h⟩ := h
        obtain rfl := Subcommand.name_of_ofName? (orRefuse_eq_ok_iff.mp hname)
        exact ⟨s, rest, d, rfl, hscan, orRefuse_eq_ok_iff.mp h⟩
  · intro h
    obtain ⟨s, rest, d, rfl, hscan, hcommand⟩ := h
    rw [parse_cons, hscan, Traversal.bind_eq_ok_iff]
    exact ⟨d, rfl, orRefuse_eq_ok_iff.mpr hcommand⟩

theorem parse_output_cons {arguments : List String} {plain redirected : Command} {path : String}
    (hplain : Command.parse arguments = .ok plain) (hpath : path ≠ "")
    (h : plain.Redirects path redirected) :
    ∃ name rest, arguments = name :: rest ∧
      Command.parse (name :: ("-o=" ++ path) :: rest) = .ok redirected := by
  obtain ⟨s, rest, d, rfl, hscan, hcommand⟩ := parse_eq_ok_iff.mp hplain
  obtain ⟨hkey, hnone, hredirected⟩ := Draft.command?_withOutput hcommand h
  refine ⟨s.name, rest, rfl, parse_eq_ok_iff.mpr ⟨s, _, d.withOutput path, rfl, ?_, hredirected⟩⟩
  rw [Draft.scan_output_cons hkey hpath {} rfl]
  exact Draft.scan_withOutput hscan hnone path

end Tribyte.Cli
