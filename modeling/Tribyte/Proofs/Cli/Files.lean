import Tribyte.Cli.Files

/-!
# Reading and writing by path

Whether a path can be written does not depend on the bytes: it has to lead to a name of the
directory, and one that is not too long. What is written is what is read back, whatever was there
before, and under every other name nothing changes.
-/

namespace Tribyte.Cli.Files

variable {files : Files} {name other path : String} {bytes : List UInt8}

theorem lookup_filter_ne {entries : List (String × List UInt8)} (h : other ≠ name) :
    (entries.filter (·.1 != name)).lookup other = entries.lookup other := by
  induction entries with
  | nil => rfl
  | cons entry rest ih =>
    obtain ⟨key, bytes⟩ := entry
    by_cases hkey : key = name
    · have hother : (other == key) = false := beq_eq_false_iff_ne.mpr (hkey ▸ h)
      rw [List.filter_cons_of_neg (by simp [hkey]), ih, List.lookup_cons, hother]
    · rw [List.filter_cons_of_pos (by simp [hkey]), List.lookup_cons, List.lookup_cons, ih]

@[simp] theorem get?_set_self (files : Files) (name : String) (bytes : List UInt8) :
    (files.set name bytes).get? name = some bytes :=
  List.lookup_cons_self

theorem get?_set_of_ne (files : Files) (bytes : List UInt8) (h : other ≠ name) :
    (files.set name bytes).get? other = files.get? other := by
  have hother : (other == name) = false := beq_eq_false_iff_ne.mpr h
  rw [get?, set, List.lookup_cons, hother]
  exact lookup_filter_ne h

def Writable (files : Files) (path : String) : Prop :=
  ∃ bytes written, files.write path bytes = .ok written

/-- The path leads to this name of the directory, and a file can have the name. -/
structure Names (path name : String) : Prop where
  locate : Files.locate path = .ok (.entry name false)
  size : name.utf8ByteSize ≤ 255

theorem Names.unique {first second : String} (h : Names path first) (h' : Names path second) :
    first = second := by
  cases h.locate.symm.trans h'.locate
  rfl

theorem Names.read_eq_ok_iff (h : Names path name) :
    files.read path = .ok bytes ↔ files.get? name = some bytes := by
  rw [read, h.locate]
  simp only [bind, Except.bind, readAt, find, if_pos h.size]
  cases files.get? name <;> simp

theorem Names.write_eq (h : Names path name) (files : Files) (bytes : List UInt8) :
    files.write path bytes = .ok (files.set name bytes) := by
  rw [write, h.locate]
  simp only [bind, Except.bind, writeAt, find, if_pos h.size, Except.map]

theorem Names.read_set (h : Names path name) (files : Files) (bytes : List UInt8) :
    (files.set name bytes).read path = .ok bytes :=
  h.read_eq_ok_iff.mpr (get?_set_self files name bytes)

theorem exists_names_or_fails (files : Files) (path : String) :
    (∃ name, Names path name) ∨
      (∃ cause, files.read path = .error cause) ∧
        ∀ bytes, ∃ cause, files.write path bytes = .error cause := by
  unfold read write
  cases hplace : locate path with
  | error cause => exact .inr ⟨⟨cause, rfl⟩, fun _ => ⟨cause, rfl⟩⟩
  | ok place =>
    cases place with
    | directory | inside name => exact .inr ⟨⟨_, rfl⟩, fun _ => ⟨_, rfl⟩⟩
    | entry name asFolder =>
      cases asFolder with
      | true => exact .inr ⟨⟨_, rfl⟩, fun _ => ⟨_, rfl⟩⟩
      | false =>
        by_cases hsize : name.utf8ByteSize ≤ 255
        · exact .inl ⟨name, hplace, hsize⟩
        · simp [bind, Except.bind, readAt, writeAt, find, hsize, Except.map]

theorem exists_names_of_read (h : files.read path = .ok bytes) : ∃ name, Names path name := by
  refine (exists_names_or_fails files path).resolve_right fun hfails => ?_
  obtain ⟨cause, hread⟩ := hfails.1
  rw [hread] at h
  contradiction

theorem Writable.exists_names (h : files.Writable path) : ∃ name, Names path name := by
  refine (exists_names_or_fails files path).resolve_right fun hfails => ?_
  obtain ⟨bytes, written, h⟩ := h
  obtain ⟨cause, hwrite⟩ := hfails.2 bytes
  rw [hwrite] at h
  contradiction

theorem Writable.path_ne (h : files.Writable path) : path ≠ "" := by
  intro hempty
  subst hempty
  obtain ⟨name, hname⟩ := h.exists_names
  have hlocate : locate "" = .ok .directory := rfl
  cases hname.locate.symm.trans hlocate

end Tribyte.Cli.Files
