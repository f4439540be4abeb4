import Tribyte.Proofs.Assembly.RoundTrip

/-!
# One source behind another

Two sources with a line feed between them assemble to the instructions of the first and then those
of the second. The lines of the second are counted on from those of the first, and behind a bad line
nothing is read any more. A printed program takes one line for each of its instructions.
-/

namespace Tribyte

/-- The same error in a source that has `count` more lines in front. -/
def Error.below (count : Nat) : Error → Error
  | .source number fault => .source (count + number) fault
  | e => e

theorem Error.below_below (m n : Nat) (e : Error) : (e.below n).below m = e.below (m + n) := by
  cases e <;> simp [below, Nat.add_assoc]

namespace Assembly

theorem readFrom_add (count first : Nat) (lines : List Text) :
    readFrom (count + first) lines = (readFrom first lines).mapError (.below count) := by
  induction lines generalizing first with
  | nil => rfl
  | cons line lines ih =>
    cases h : Line.parse line with
    | error fault =>
      rw [readFrom_cons_of_error h, readFrom_cons_of_error h]
      rfl
    | ok value =>
      rw [readFrom_cons_of_ok h, readFrom_cons_of_ok h, Nat.add_assoc, ih]
      cases readFrom (first + 1) lines <;> rfl

theorem assemble_text_append (i : Instruction) (source : Text) :
    assemble (i.text ++ '\n' :: source) = ((assemble source).map (i :: ·)).mapError (.below 1) := by
  have hfree : '\n' ∉ i.text := Line.not_mem_text (by decide) (by decide) i
  have hparse : Line.parse i.text = .ok (some i) :=
    Line.parse_eq_ok_iff.mpr (Line.reads_text (n := 0) (.inl (by simp)))
  rw [assemble_eq_readFrom, List.splitOn_append_cons_self_of_not_mem hfree,
    readFrom_cons_of_ok hparse, readFrom_add, ← assemble_eq_readFrom]
  cases assemble source <;> rfl

theorem assemble_disassemble_append (code : List Instruction) (source : Text) :
    assemble (disassemble code ++ source) =
      ((assemble source).map (code ++ ·)).mapError (.below code.length) := by
  induction code with
  | nil =>
    change assemble source = _
    cases assemble source with
    | ok more => rfl
    | error e => cases e <;> simp [Except.map, Except.mapError, Error.below]
  | cons i code ih =>
    rw [disassemble, List.flatMap_cons, List.append_assoc, List.append_assoc,
      List.singleton_append, assemble_text_append, ← disassemble, ih]
    cases assemble source with
    | ok more => rfl
    | error e =>
      simp only [Except.map, Except.mapError, Error.below_below, List.length_cons, Nat.add_comm]

/-- Reading goes on behind a line feed as if the source began there, with the numbers of the lines
counted on. Of two bad lines the one in front is reported, whatever follows it. -/
theorem assemble_append_lineFeed (front back : Text) :
    assemble (front ++ '\n' :: back) =
      (match assemble front, assemble back with
        | .error cause, _ => .error cause
        | .ok code, .ok more => .ok (code ++ more)
        | .ok _, .error cause => .error (cause.below (1 + front.count '\n'))) ∧
    ((∃ more, assemble back = .ok more) ∨
      ∃ number fault, assemble back = .error (.source number fault)) := by
  constructor
  · have hback : readFrom (1 + (front.splitOn '\n').length) (back.splitOn '\n') =
        (assemble back).mapError (.below (1 + front.count '\n')) := by
      rw [assemble_eq_readFrom, ← readFrom_add, Text.length_splitOn, Nat.add_comm _ 1,
        Nat.add_comm _ 1]
    rw [assemble_eq_readFrom (front ++ _), List.splitOn_append_cons_self, readFrom_append, hback,
      ← assemble_eq_readFrom]
    cases assemble front with
    | error cause => rfl
    | ok code => cases assemble back <;> rfl
  · cases h : assemble back with
    | ok more => exact .inl ⟨more, rfl⟩
    | error cause =>
      obtain ⟨i, line, fault, -, -, rfl, -⟩ := assemble_eq_error_iff.mp h
      exact .inr ⟨i + 1, fault, rfl⟩

end Assembly

end Tribyte
