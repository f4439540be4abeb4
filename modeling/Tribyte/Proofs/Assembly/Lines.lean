import Tribyte.Proofs.Assembly.Grammar

/-!
# Lines and their ends

Commas and white space in front of the tokens of a line or behind them are not read, nor is a
comment. So a carriage return makes no difference at the end of a line, and an empty last line makes
none either: a source assembles as the pieces between its line feeds.
-/

namespace Tribyte

namespace Line

variable {front gap back : Text}

theorem parse_congr {line other : Text} (h : tokens (code line) = tokens (code other)) :
    parse line = parse other := by
  rw [parse, parse, h]

theorem not_mem_semicolon (h : ∀ c ∈ gap, Separates c) : ';' ∉ gap := by
  intro hmem
  exact absurd (isSeparator_iff.mpr (h ';' hmem)) (by decide)

theorem code_of_not_mem {line : Text} (h : ';' ∉ line) : code line = line :=
  cut_iff.mp ⟨h, .inl rfl⟩

theorem code_append_of_not_mem (h : ';' ∉ front) (back : Text) :
    code (front ++ back) = front ++ code back := by
  apply List.takeWhile_append_of_pos
  intro c hc
  rw [bne_iff_ne]
  exact ne_of_mem_of_not_mem hc h

theorem code_append_of_mem (h : ';' ∈ front) (back : Text) : code (front ++ back) = code front := by
  obtain ⟨hfree, hfront⟩ := cut_iff.mpr (rfl : code front = code front)
  rcases hfront with hall | ⟨comment, hcut⟩
  · rw [← hall] at hfree
    exact absurd h hfree
  · refine cut_iff.mp ⟨hfree, .inr ⟨comment ++ back, ?_⟩⟩
    rw [← List.cons_append, ← List.append_assoc, ← hcut]

theorem code_append_comment (front comment : Text) :
    code (front ++ ';' :: comment) = code front := by
  by_cases h : ';' ∈ front
  · exact code_append_of_mem h _
  · have hnone : code (';' :: comment) = [] := rfl
    rw [code_append_of_not_mem h, hnone, List.append_nil, code_of_not_mem h]

theorem tokens_gap_append (h : ∀ c ∈ gap, Separates c) (text : Text) :
    tokens (gap ++ text) = tokens text := by
  induction gap with
  | nil => rfl
  | cons c gap ih =>
    obtain ⟨hc, hgap⟩ := List.forall_mem_cons.mp h
    rw [List.cons_append, tokens_cons_of_separates hc, ih hgap]

theorem tokens_append_cons_of_separates {c : Char} (h : Separates c) (front back : Text) :
    tokens (front ++ c :: back) = tokens front ++ tokens back := by
  rw [tokens, List.splitOnP_append_cons _ _ (isSeparator_iff.mpr h), List.filter_append]
  rfl

theorem tokens_append_gap (h : ∀ c ∈ gap, Separates c) (text : Text) :
    tokens (text ++ gap) = tokens text := by
  cases gap with
  | nil => rw [List.append_nil]
  | cons c gap =>
    obtain ⟨hc, hgap⟩ := List.forall_mem_cons.mp h
    have hnone : tokens gap = tokens [] := by
      rw [← tokens_gap_append hgap [], List.append_nil]
    rw [tokens_append_cons_of_separates hc, hnone]
    exact List.append_nil (tokens text)

theorem tokens_append_gap_append (h : ∀ c ∈ gap, Separates c) (hne : gap ≠ [])
    (front back : Text) : tokens (front ++ (gap ++ back)) = tokens front ++ tokens back := by
  obtain ⟨c, gap, rfl⟩ := List.exists_cons_of_ne_nil hne
  obtain ⟨hc, hgap⟩ := List.forall_mem_cons.mp h
  rw [List.cons_append, tokens_append_cons_of_separates hc, tokens_gap_append hgap]

theorem parse_gap {other : Text} (h : ∀ c ∈ gap, Separates c) (hne : gap ≠ [])
    (hother : ∀ c ∈ other, Separates c) (hother' : other ≠ []) (front back : Text) :
    parse (front ++ gap ++ back) = parse (front ++ other ++ back) := by
  apply parse_congr
  rw [List.append_assoc, List.append_assoc]
  by_cases hcomment : ';' ∈ front
  · rw [code_append_of_mem hcomment, code_append_of_mem hcomment]
  · rw [code_append_of_not_mem hcomment, code_append_of_not_mem hcomment,
      code_append_of_not_mem (not_mem_semicolon h), tokens_append_gap_append h hne,
      code_append_of_not_mem (not_mem_semicolon hother), tokens_append_gap_append hother hother']

theorem parse_gap_append (h : ∀ c ∈ gap, Separates c) (line : Text) :
    parse (gap ++ line) = parse line := by
  apply parse_congr
  rw [code_append_of_not_mem (not_mem_semicolon h), tokens_gap_append h]

theorem parse_append_gap (h : ∀ c ∈ gap, Separates c) (line : Text) :
    parse (line ++ gap) = parse line := by
  apply parse_congr
  by_cases hcomment : ';' ∈ line
  · rw [code_append_of_mem hcomment]
  · have hgap : code gap = gap := code_of_not_mem (not_mem_semicolon h)
    rw [code_append_of_not_mem hcomment, hgap, tokens_append_gap h, code_of_not_mem hcomment]

theorem parse_append_comment (line comment : Text) :
    parse (line ++ ';' :: comment) = parse line := by
  apply parse_congr
  rw [code_append_comment]

end Line

namespace Assembly

theorem parseLine_eq_ok_iff {numbered : Text × Nat} {value : Option Instruction} :
    parseLine numbered = .ok value ↔ Line.Reads numbered.1 value := by
  rw [← Line.parse_eq_ok_iff, parseLine]
  cases Line.parse numbered.1 <;> simp [Except.mapError]

theorem parseLine_eq_error_iff {numbered : Text × Nat} {e : Error} :
    parseLine numbered = .error e ↔
      ∃ fault, Line.parse numbered.1 = .error fault ∧ .source numbered.2 fault = e := by
  rw [parseLine]
  cases Line.parse numbered.1 <;> simp [Except.mapError]

theorem readFrom_cons_of_error {line : Text} {fault : Fault} (h : Line.parse line = .error fault)
    (first : Nat) (lines : List Text) :
    readFrom first (line :: lines) = .error (.source first fault) := by
  have hline : parseLine (line, first) = .error (.source first fault) :=
    parseLine_eq_error_iff.mpr ⟨fault, h, rfl⟩
  rw [readFrom, List.zipIdx_cons, Traversal.mapM_cons_of_error hline]
  rfl

theorem readFrom_cons_of_ok {line : Text} {value : Option Instruction}
    (h : Line.parse line = .ok value) (first : Nat) (lines : List Text) :
    readFrom first (line :: lines) = (readFrom (first + 1) lines).map (value.toList ++ ·) := by
  have hline : parseLine (line, first) = .ok value :=
    parseLine_eq_ok_iff.mpr (Line.parse_eq_ok_iff.mp h)
  rw [readFrom, readFrom, List.zipIdx_cons, Traversal.mapM_cons_of_ok hline]
  cases (lines.zipIdx (first + 1)).mapM parseLine with
  | error e => rfl
  | ok values => cases value <;> rfl

theorem readFrom_append (first : Nat) (front back : List Text) :
    readFrom first (front ++ back) =
      match readFrom first front with
      | .error cause => .error cause
      | .ok code => (readFrom (first + front.length) back).map (code ++ ·) := by
  induction front generalizing first with
  | nil =>
    change readFrom first back = (readFrom first back).map ([] ++ ·)
    cases readFrom first back <;> rfl
  | cons line front ih =>
    rw [List.cons_append]
    cases hline : Line.parse line with
    | error fault => rw [readFrom_cons_of_error hline, readFrom_cons_of_error hline]
    | ok value =>
      have hnumber : first + 1 + front.length = first + (front.length + 1) := by omega
      rw [readFrom_cons_of_ok hline, readFrom_cons_of_ok hline, ih, List.length_cons, hnumber]
      cases readFrom (first + 1) front with
      | error cause => rfl
      | ok code => cases readFrom (first + (front.length + 1)) back <;> simp [Except.map]

theorem readFrom_map {f : Text → Text} (h : ∀ line, Line.parse (f line) = Line.parse line)
    (first : Nat) (lines : List Text) : readFrom first (lines.map f) = readFrom first lines := by
  induction lines generalizing first with
  | nil => rfl
  | cons line lines ih =>
    rw [List.map_cons]
    cases hline : Line.parse line with
    | error fault =>
      rw [readFrom_cons_of_error hline, readFrom_cons_of_error ((h line).trans hline)]
    | ok value =>
      rw [readFrom_cons_of_ok hline, readFrom_cons_of_ok ((h line).trans hline), ih]

theorem parse_stripReturn (line : Text) : Line.parse line.stripReturn = Line.parse line := by
  unfold Text.stripReturn
  split
  · next hreturn =>
    have hgap : ∀ c ∈ ['\r'], Line.Separates c :=
      List.forall_mem_singleton.mpr (Line.isSeparator_iff.mp (by decide))
    rw [← Line.parse_append_gap hgap, List.dropLast_append_getLast? '\r' hreturn]
  · rfl

theorem readFrom_filter_ne_nil (first : Nat) (last : Text) :
    readFrom first ([last].filter (· != [])) = readFrom first [last] := by
  cases last <;> rfl

theorem assemble_eq_readFrom (source : Text) :
    assemble source = readFrom 1 (source.splitOn '\n') := by
  obtain ⟨front, last, hsplit⟩ : ∃ front last, source.splitOn '\n' = front ++ [last] :=
    ⟨_, _, (List.dropLast_concat_getLast (List.splitOn_ne_nil '\n' source)).symm⟩
  have hlines : source.lines = front.map Text.stripReturn ++ [last].filter (· != []) := by
    rw [Text.lines, hsplit]
    simp
  rw [assemble, hlines, hsplit, readFrom_append, readFrom_append, readFrom_filter_ne_nil,
    readFrom_map parse_stripReturn, List.length_map]

end Assembly

end Tribyte
