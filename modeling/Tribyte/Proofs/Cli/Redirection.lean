import Tribyte.Proofs.Cli.Arguments
import Tribyte.Proofs.Cli.Assembling
import Tribyte.Proofs.Cli.Failure
import Tribyte.Proofs.Cli.Files

/-!
# Printed or put into a file

A command makes its output before it writes, and makes the same output whether it prints it or not.
So with an output file it ends as without, the file holds what would have been printed, and all
other files are as they were. This is so even if the output goes over the input, and a conversion
of a file in place is undone by the conversion back.
-/

namespace Tribyte.Cli

/-- Ends well and prints nothing. The file of the path holds these bytes, and beside it nothing has
changed. -/
structure Outcome.Stores (o : Outcome) (files : Files) (path : String) (bytes : List UInt8) :
    Prop where
  status : o.status = 0
  stdout : o.stdout = []
  held : o.files.read path = .ok bytes
  others : ∃ name, Files.Names path name ∧
    ∀ other, other ≠ name → o.files.get? other = files.get? other

variable {files : Files} {path : String}

theorem Command.Redirects.makes {plain redirected : Command} (h : plain.Redirects path redirected)
    {output : Option String} {bytes : List UInt8} (hmakes : plain.Makes files output bytes) :
    output = none ∧ redirected.Makes files (some path) bytes := by
  cases h with
  | asm file l tagged =>
    cases hmakes with
    | asm hread htext hcode => exact ⟨rfl, .asm hread htext hcode⟩
  | convert file source target =>
    cases hmakes with
    | convert hread hwritten => exact ⟨rfl, .convert hread hwritten⟩

theorem Command.Redirects.rejects {plain redirected : Command}
    (h : plain.Redirects path redirected) {failure : Failure}
    (hrejects : plain.Rejects files failure) : redirected.Rejects files failure := by
  cases h with
  | asm file l tagged =>
    cases hrejects with
    | unreadable hinput hread => exact .unreadable hinput hread
    | stream hreads _ _ => cases hreads
    | notUtf8 hread htext => exact .notUtf8 hread htext
    | source hread htext herror => exact .source hread htext herror
  | convert file source target =>
    cases hrejects with
    | unreadable hinput hread => exact .unreadable hinput hread
    | stream hreads hread hlength =>
      cases hreads with
      | convert => exact .stream (.convert target (some path)) hread hlength

theorem Command.Makes.stores {command : Command} {bytes : List UInt8} {name : String}
    (h : command.Makes files (some path) bytes) (hname : Files.Names path name) :
    (command.run files).Stores files path bytes := by
  obtain ⟨events, hrun⟩ := h.run_of_write (hname.write_eq files bytes)
  rw [hrun]
  exact ⟨rfl, rfl, hname.read_set files bytes, name, hname,
    fun _ => Files.get?_set_of_ne files bytes⟩

theorem Command.Redirects.run {plain redirected : Command} (h : plain.Redirects path redirected)
    (hwritable : files.Writable path) :
    ((plain.run files).status ≠ 0 ∧ (redirected.run files).status ≠ 0) ∨
      ((plain.run files).status = 0 ∧
        (redirected.run files).Stores files path (plain.run files).stdout) := by
  obtain ⟨name, hname⟩ := hwritable.exists_names
  rcases plain.makes_or_rejects files with ⟨output, bytes, hmakes⟩ | ⟨failure, hrejects⟩
  · obtain ⟨rfl, hredirected⟩ := h.makes hmakes
    obtain ⟨events, hrun⟩ := hmakes.run_of_none
    rw [hrun]
    exact .inr ⟨rfl, hredirected.stores hname⟩
  · have hredirected := h.rejects hrejects
    exact .inl ⟨hrejects.refuses.status_ne_zero, hredirected.refuses.status_ne_zero⟩

theorem Outcome.Stores.get?_eq {first second : Outcome} {bytes bytes' : List UInt8}
    (h : first.Stores files path bytes') (h' : second.Stores first.files path bytes)
    (hread : files.read path = .ok bytes) (name : String) :
    second.files.get? name = files.get? name := by
  obtain ⟨changed, hchanged, hothers⟩ := h.others
  obtain ⟨changed', hchanged', hothers'⟩ := h'.others
  obtain rfl := hchanged.unique hchanged'
  by_cases hname : name = changed
  · rw [hname, hchanged.read_eq_ok_iff.mp hread, hchanged.read_eq_ok_iff.mp h'.held]
  · rw [hothers' name hname, hothers name hname]

theorem stores_convert_encode {f g : Layout} {arguments : List String} {code : List Instruction}
    (hcommand : Command.parse arguments = .ok (.convert path f g (some path)))
    (hread : files.read path = .ok (Stream.encode f code)) :
    (Cli.run files arguments).Stores files path (Stream.encode g code) := by
  obtain ⟨name, hname⟩ := Files.exists_names_of_read hread
  have hmakes : (Command.convert path f g (some path)).Makes files (some path)
      (Stream.encode g code) := .convert hread (Stream.transcode_encode f g code)
  rw [run_eq_of_parse hcommand]
  exact hmakes.stores hname

/-- For a call that prints there is one that writes to a given file. It ends with status 0 exactly
if the other does, and then prints nothing, leaves in the file what the other prints and changes no
other file. And a stream converted in place, and then back, is the stream that it was. -/
theorem redirected_run_stores_output (files : Files) (path : String) :
    (∀ plain redirected arguments, plain.Redirects path redirected → files.Writable path →
      Command.parse arguments = .ok plain →
      (∃ name rest, arguments = name :: rest ∧
        Command.parse (name :: ("-o=" ++ path) :: rest) = .ok redirected) ∧
      ∀ again, Command.parse again = .ok redirected →
        ((run files again).status = 0 ↔ (run files arguments).status = 0) ∧
        ((run files again).status = 0 →
          (run files again).Stores files path (run files arguments).stdout)) ∧
    ∀ f g there back bytes, Command.parse there = .ok (.convert path f g (some path)) →
      Command.parse back = .ok (.convert path g f (some path)) →
      files.read path = .ok bytes → 3 ∣ bytes.length →
      let once := run files there
      let twice := run once.files back
      once.status = 0 ∧ twice.status = 0 ∧ twice.files.read path = .ok bytes ∧
        ∀ name, twice.files.get? name = files.get? name := by
  constructor
  · intro plain redirected arguments hredirects hwritable hplain
    refine ⟨parse_output_cons hplain hwritable.path_ne hredirects, fun again hagain => ?_⟩
    rw [run_eq_of_parse hplain, run_eq_of_parse hagain]
    rcases hredirects.run hwritable with ⟨hstatus, hagainStatus⟩ | ⟨hstatus, hstores⟩
    · exact ⟨iff_of_false hagainStatus hstatus, fun h => absurd h hagainStatus⟩
    · exact ⟨iff_of_true hstores.status hstatus, fun _ => hstores⟩
  · intro f g there back bytes hthere hback hread hlength
    obtain ⟨code, rfl⟩ := Stream.exists_encode_of_three_dvd f hlength
    have honce := stores_convert_encode hthere hread
    have htwice := stores_convert_encode hback honce.held
    exact ⟨honce.status, htwice.status, htwice.held, honce.get?_eq htwice hread⟩

theorem redirected_run_stores_output_inPlace :
    let files : Files := ⟨[("code", [1, 2, 3, 4, 5, 6]), ("other", [7])]⟩
    let toV2 := ["convert", "code", "--from=v1", "--to=v2"]
    let once := run files (toV2 ++ ["-o", "code"])
    let twice := run once.files ["convert", "-o=code", "code", "--to=v1", "--from=v2"]
    (run files (toV2 ++ ["--output", "./code"])).Stores files "./code" [3, 1, 2, 6, 4, 5] ∧
      once.status = 0 ∧ twice.status = 0 ∧ twice.files.read "code" = .ok [1, 2, 3, 4, 5, 6] := by
  intro files toV2 once twice
  have hread : files.read "code" = .ok [1, 2, 3, 4, 5, 6] := by decide
  constructor
  · have hplain : Command.parse toV2 = .ok (.convert "code" .v1 .v2 none) := by decide
    have hwritable : files.Writable "./code" := ⟨[], files.set "code" [], by decide⟩
    have hstatus : (run files toV2).status = 0 := by decide
    have hstdout : (run files toV2).stdout = [3, 1, 2, 6, 4, 5] := by decide
    have hagain := ((redirected_run_stores_output files "./code").1 _ _ _ (.convert "code" .v1 .v2)
      hwritable hplain).2 (toV2 ++ ["--output", "./code"]) (by decide)
    have hstores := hagain.2 (hagain.1.mpr hstatus)
    rwa [hstdout] at hstores
  · have hinPlace := (redirected_run_stores_output files "code").2 .v1 .v2 (toV2 ++ ["-o", "code"])
      ["convert", "-o=code", "code", "--to=v1", "--from=v2"] _ (by decide) (by decide) hread
      (by decide)
    exact ⟨hinPlace.1, hinPlace.2.1, hinPlace.2.2.1⟩

end Tribyte.Cli
