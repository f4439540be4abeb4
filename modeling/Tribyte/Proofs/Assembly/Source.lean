import Mathlib.Data.List.ReduceOption
import Mathlib.Order.Bounds.Defs
import Tribyte.Proofs.Assembly.Lines

/-!
# Source text against its grammar

A source assembles exactly when each of its lines conforms to the grammar, and then to the
instructions of its lines in order. Otherwise the error carries the least number of a line that
does not conform. The lines are the pieces between line feeds and are counted from one.
-/

namespace Tribyte.Assembly

def faultyNumbers (lines : List Text) : Set Nat :=
  {number | ∃ (i : Nat) (line : Text),
    lines[i]? = some line ∧ ¬ Line.Conforms line ∧ number = i + 1}

theorem getElem?_zipIdx_one {lines : List Text} {i : Nat} {numbered : Text × Nat} :
    (lines.zipIdx 1)[i]? = some numbered ↔
      lines[i]? = some numbered.1 ∧ numbered.2 = i + 1 := by
  obtain ⟨line, number⟩ := numbered
  rw [List.getElem?_zipIdx]
  cases lines[i]? with
  | none => simp
  | some found => simp [Nat.add_comm, eq_comm]

theorem assemble_eq_ok_iff {source : Text} {code : List Instruction} :
    assemble source = .ok code ↔
      ∃ values, List.Forall₂ Line.Reads (source.splitOn '\n') values ∧
        values.reduceOption = code := by
  have hlines : ((source.splitOn '\n').zipIdx 1).map Prod.fst = source.splitOn '\n' :=
    List.zipIdx_map_fst 1 _
  rw [assemble_eq_readFrom, readFrom, Traversal.map_eq_ok_iff]
  conv_rhs => rw [← hlines]
  simp only [Traversal.mapM_eq_ok_iff, parseLine_eq_ok_iff, List.forall₂_map_left_iff]
  rfl

theorem assemble_eq_error_iff {source : Text} {e : Error} :
    assemble source = .error e ↔
      ∃ (i : Nat) (line : Text) (fault : Fault), (source.splitOn '\n')[i]? = some line ∧
        Line.parse line = .error fault ∧ .source (i + 1) fault = e ∧
        ∀ j < i, ∀ earlier, (source.splitOn '\n')[j]? = some earlier → Line.Conforms earlier := by
  rw [assemble_eq_readFrom, readFrom, Traversal.map_eq_error_iff, Traversal.mapM_eq_error_iff]
  simp only [parseLine_eq_error_iff, parseLine_eq_ok_iff, getElem?_zipIdx_one]
  constructor
  · intro h
    obtain ⟨i, ⟨line, number⟩, ⟨hline, hnumber⟩, ⟨fault, hfault, rfl⟩, hbefore⟩ := h
    obtain rfl : number = i + 1 := hnumber
    exact ⟨i, line, fault, hline, hfault, rfl,
      fun j hj earlier h => hbefore j hj (earlier, j + 1) ⟨h, rfl⟩⟩
  · intro h
    obtain ⟨i, line, fault, hline, hfault, rfl, hbefore⟩ := h
    exact ⟨i, (line, i + 1), ⟨hline, rfl⟩, ⟨fault, hfault, rfl⟩,
      fun j hj numbered h => hbefore j hj numbered.1 h.1⟩

theorem exists_assemble_iff {source : Text} :
    (∃ code, assemble source = .ok code) ↔
      ∀ line ∈ source.splitOn '\n', Line.Conforms line := by
  simp only [assemble_eq_ok_iff]
  constructor
  · intro h
    obtain ⟨-, values, hvalues, -⟩ := h
    exact Traversal.exists_forall₂_iff.mp ⟨values, hvalues⟩
  · intro h
    obtain ⟨values, hvalues⟩ := Traversal.exists_forall₂_iff.mpr h
    exact ⟨_, values, hvalues, rfl⟩

theorem isLeast_faultyNumbers {lines : List Text} {i : Nat} {line : Text}
    (hline : lines[i]? = some line) (hfaulty : ¬ Line.Conforms line)
    (hbefore : ∀ j < i, ∀ earlier, lines[j]? = some earlier → Line.Conforms earlier) :
    IsLeast (faultyNumbers lines) (i + 1) := by
  refine ⟨⟨i, line, hline, hfaulty, rfl⟩, ?_⟩
  rintro number ⟨j, other, hother, hbad, rfl⟩
  by_contra hlt
  exact hbad (hbefore j (by omega) other hother)

/-- The grammar decides: all lines conform and the instructions are theirs, or the error is at the
least faulty number. -/
theorem assemble_eq_grammar (source : Text) :
    ∃ lines, Text.Pieces '\n' source lines ∧
      (∀ code, assemble source = .ok code ↔
        ∃ values, List.Forall₂ Line.Reads lines values ∧ values.reduceOption = code) ∧
      ((∃ code, assemble source = .ok code) ↔ ∀ line ∈ lines, Line.Conforms line) ∧
      ((¬ ∀ line ∈ lines, Line.Conforms line) ↔
        ∃ number fault, assemble source = .error (.source number fault) ∧
          IsLeast (faultyNumbers lines) number) := by
  refine ⟨source.splitOn '\n', Text.pieces_iff.mpr rfl, fun code => assemble_eq_ok_iff,
    exists_assemble_iff, ?_⟩
  rw [← exists_assemble_iff]
  constructor
  · intro hno
    cases h : assemble source with
    | ok code => exact absurd ⟨code, h⟩ hno
    | error e =>
      obtain ⟨i, line, fault, hline, hfault, rfl, hbefore⟩ := assemble_eq_error_iff.mp h
      refine ⟨i + 1, fault, rfl, isLeast_faultyNumbers hline ?_ hbefore⟩
      rw [Line.conforms_iff, hfault]
      simp
  · rintro ⟨number, fault, h, -⟩ ⟨code, hcode⟩
    rw [hcode] at h
    contradiction

end Tribyte.Assembly
