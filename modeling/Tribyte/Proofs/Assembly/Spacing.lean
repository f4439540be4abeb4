import Mathlib.Logic.Relation
import Tribyte.Proofs.Assembly.Concatenation

/-!
# How a source is spaced

Commas and white space only keep tokens apart, and a comment is not read at all. A source can
therefore be spaced out, commented and given other line ends, in any number of changes: it still
assembles to the same instructions, or fails at the same line with the same error.
-/

namespace Tribyte

namespace Assembly

/-- A comma or white space that does not end the line. -/
def Gap (c : Char) : Prop := Line.Separates c ∧ c ≠ '\n'

instance (c : Char) : Decidable (Gap c) :=
  inferInstanceAs (Decidable ((c = ',' ∨ Text.isBlank c = true) ∧ c ≠ '\n'))

def StartsLine (front : Text) : Prop := front = [] ∨ ∃ head, front = head ++ ['\n']

def EndsLine (back : Text) : Prop :=
  back = [] ∨ (∃ rest, back = '\n' :: rest) ∨ ∃ rest, back = '\r' :: '\n' :: rest

/-- One change in the spacing of a source: of a gap, of what surrounds a line, of a comment or of a
line end. -/
inductive Respaced : Text → Text → Prop
  | replace {c d : Char} (front back : Text) : Gap c → Gap d →
      Respaced (front ++ c :: back) (front ++ d :: back)
  | insertBefore {c d : Char} (front back : Text) : Gap c → Gap d →
      Respaced (front ++ c :: back) (front ++ d :: c :: back)
  | insertBehind {c d : Char} (front back : Text) : Gap c → Gap d →
      Respaced (front ++ c :: back) (front ++ c :: d :: back)
  | indent {d : Char} {front : Text} (back : Text) : StartsLine front → Gap d →
      Respaced (front ++ back) (front ++ d :: back)
  | trail {d : Char} {back : Text} (front : Text) : EndsLine back → Gap d →
      Respaced (front ++ back) (front ++ d :: back)
  | comment {comment back : Text} (front : Text) : '\n' ∉ comment → EndsLine back →
      Respaced (front ++ back) (front ++ ';' :: (comment ++ back))
  | uncomment {comment back : Text} (front : Text) : '\n' ∉ comment → EndsLine back →
      Respaced (front ++ ';' :: (comment ++ back)) (front ++ back)
  | carriageReturn (front back : Text) :
      Respaced (front ++ '\n' :: back) (front ++ '\r' :: '\n' :: back)

open Text (firstPiece lastPiece)

variable {front middle back : Text}

theorem lastPiece_of_startsLine (h : StartsLine front) : lastPiece '\n' front = [] := by
  rcases h with rfl | ⟨head, rfl⟩
  · rfl
  · exact List.rtakeWhile_concat_neg _ head '\n' (by decide)

theorem separates_of_endsLine (h : EndsLine back) :
    ∀ c ∈ firstPiece '\n' back, Line.Separates c := by
  rcases h with rfl | ⟨rest, rfl⟩ | ⟨rest, rfl⟩
  · simp [firstPiece]
  · simp [firstPiece]
  · have hreturn : Line.Separates '\r' := Line.isSeparator_iff.mp (by decide)
    simpa [firstPiece] using hreturn

theorem readFrom_replace {line other : Text} (h : Line.parse line = Line.parse other)
    (first : Nat) (before after : List Text) :
    readFrom first (before ++ line :: after) = readFrom first (before ++ other :: after) := by
  have htail (number : Nat) :
      readFrom number (line :: after) = readFrom number (other :: after) := by
    cases hline : Line.parse line with
    | error fault => rw [readFrom_cons_of_error hline, readFrom_cons_of_error (h ▸ hline)]
    | ok value => rw [readFrom_cons_of_ok hline, readFrom_cons_of_ok (h ▸ hline)]
  rw [readFrom_append, readFrom_append, htail]

theorem assemble_replace {other : Text} (hmiddle : '\n' ∉ middle) (hother : '\n' ∉ other)
    (h : Line.parse (lastPiece '\n' front ++ middle ++ firstPiece '\n' back) =
      Line.parse (lastPiece '\n' front ++ other ++ firstPiece '\n' back)) :
    assemble (front ++ (middle ++ back)) = assemble (front ++ (other ++ back)) := by
  obtain ⟨before, after, hsplit⟩ := Text.exists_splitOn_between '\n' front back
  rw [assemble_eq_readFrom, assemble_eq_readFrom, hsplit _ hmiddle, hsplit _ hother]
  exact readFrom_replace h 1 before after

theorem assemble_insert (hmiddle : '\n' ∉ middle)
    (h : Line.parse (lastPiece '\n' front ++ middle ++ firstPiece '\n' back) =
      Line.parse (lastPiece '\n' front ++ firstPiece '\n' back)) :
    assemble (front ++ (middle ++ back)) = assemble (front ++ back) := by
  have hnothing : '\n' ∉ ([] : Text) := List.not_mem_nil
  apply assemble_replace hmiddle hnothing
  rw [List.append_nil]
  exact h

section Gaps

variable {gap : Text}

theorem not_mem_lineFeed (h : ∀ c ∈ gap, Gap c) : '\n' ∉ gap := fun hmem => (h '\n' hmem).2 rfl

theorem separates_of_gap (h : ∀ c ∈ gap, Gap c) : ∀ c ∈ gap, Line.Separates c :=
  fun c hc => (h c hc).1

theorem assemble_gap {other : Text} (h : ∀ c ∈ gap, Gap c) (hne : gap ≠ [])
    (hother : ∀ c ∈ other, Gap c) (hother' : other ≠ []) (front back : Text) :
    assemble (front ++ (gap ++ back)) = assemble (front ++ (other ++ back)) := by
  apply assemble_replace (not_mem_lineFeed h) (not_mem_lineFeed hother)
  exact Line.parse_gap (separates_of_gap h) hne (separates_of_gap hother) hother' _ _

theorem assemble_indent (hfront : StartsLine front) (h : ∀ c ∈ gap, Gap c) (back : Text) :
    assemble (front ++ (gap ++ back)) = assemble (front ++ back) := by
  apply assemble_insert (not_mem_lineFeed h)
  rw [lastPiece_of_startsLine hfront]
  exact Line.parse_gap_append (separates_of_gap h) _

theorem assemble_trail (hback : EndsLine back) (h : ∀ c ∈ gap, Gap c) (front : Text) :
    assemble (front ++ (gap ++ back)) = assemble (front ++ back) := by
  have hend := separates_of_endsLine hback
  have hall : ∀ c ∈ gap ++ firstPiece '\n' back, Line.Separates c :=
    List.forall_mem_append.mpr ⟨separates_of_gap h, hend⟩
  apply assemble_insert (not_mem_lineFeed h)
  rw [List.append_assoc, Line.parse_append_gap hall, Line.parse_append_gap hend]

end Gaps

theorem assemble_comment {comment : Text} (h : '\n' ∉ comment) (hback : EndsLine back)
    (front : Text) : assemble (front ++ ';' :: (comment ++ back)) = assemble (front ++ back) := by
  have hfree : '\n' ∉ ';' :: comment := by simp [h]
  apply assemble_insert hfree
  rw [List.append_assoc, List.cons_append, Line.parse_append_comment,
    Line.parse_append_gap (separates_of_endsLine hback)]

theorem Respaced.assemble_eq {source other : Text} (h : Respaced source other) :
    assemble other = assemble source := by
  cases h with
  | @replace c d front back hc hd =>
    have hold : ∀ x ∈ [c], Gap x := List.forall_mem_singleton.mpr hc
    have hnew : ∀ x ∈ [d], Gap x := List.forall_mem_singleton.mpr hd
    exact assemble_gap hnew (List.cons_ne_nil _ _) hold (List.cons_ne_nil _ _) front back
  | @insertBefore c d front back hc hd =>
    have hold : ∀ x ∈ [c], Gap x := List.forall_mem_singleton.mpr hc
    have hnew : ∀ x ∈ [d, c], Gap x := List.forall_mem_cons.mpr ⟨hd, hold⟩
    exact assemble_gap hnew (List.cons_ne_nil _ _) hold (List.cons_ne_nil _ _) front back
  | @insertBehind c d front back hc hd =>
    have hold : ∀ x ∈ [c], Gap x := List.forall_mem_singleton.mpr hc
    have hnew : ∀ x ∈ [c, d], Gap x :=
      List.forall_mem_cons.mpr ⟨hc, List.forall_mem_singleton.mpr hd⟩
    exact assemble_gap hnew (List.cons_ne_nil _ _) hold (List.cons_ne_nil _ _) front back
  | indent back hfront hd =>
    exact assemble_indent hfront (List.forall_mem_singleton.mpr hd) back
  | trail front hback hd => exact assemble_trail hback (List.forall_mem_singleton.mpr hd) front
  | comment front hcomment hback => exact assemble_comment hcomment hback front
  | uncomment front hcomment hback => exact (assemble_comment hcomment hback front).symm
  | carriageReturn front back =>
    -- the carriage return is white space at the end of its line
    have hend : EndsLine ('\n' :: back) := .inr (.inl ⟨back, rfl⟩)
    have hreturn : Gap '\r' := by decide
    exact assemble_trail hend (List.forall_mem_singleton.mpr hreturn) front

/-- Any number of changes in the spacing leaves the whole result as it is, be it instructions or the
number of a bad line with what is wrong with it. -/
theorem assemble_eq_of_respaced {source other : Text}
    (h : Relation.ReflTransGen Respaced source other) : assemble other = assemble source := by
  induction h with
  | refl => rfl
  | tail _ hstep ih => rw [hstep.assemble_eq, ih]

theorem assemble_eq_of_respaced_unknownOpcode :
    let source := "imm a,1\nnop c d ;bad".toList
    let other := "imm a\u20031;x;y\r\nnop c d ".toList
    Relation.ReflTransGen Respaced source other ∧
    assemble source = .error (.source 2 (.unknownOpcode "nop".toList)) ∧
    assemble other = .error (.source 2 (.unknownOpcode "nop".toList)) := by
  intro source other
  have hstep {s t s' t' : Text} (h : Respaced s t) (hs : s = s') (ht : t = t') :
      Respaced s' t' := by
    rwa [← hs, ← ht]
  have hwide : Respaced source "imm a\u20031\nnop c d ;bad".toList :=
    hstep (.replace "imm a".toList "1\nnop c d ;bad".toList (by decide : Gap ',')
      (by decide : Gap '\u2003')) (by decide) (by decide)
  have hcomment : Respaced "imm a\u20031\nnop c d ;bad".toList
      "imm a\u20031;x;y\nnop c d ;bad".toList :=
    hstep (.comment "imm a\u20031".toList (by decide : '\n' ∉ "x;y".toList)
      (.inr (.inl ⟨"nop c d ;bad".toList, rfl⟩))) (by decide) (by decide)
  have hreturn : Respaced "imm a\u20031;x;y\nnop c d ;bad".toList
      "imm a\u20031;x;y\r\nnop c d ;bad".toList :=
    hstep (.carriageReturn "imm a\u20031;x;y".toList "nop c d ;bad".toList) (by decide)
      (by decide)
  have huncomment : Respaced "imm a\u20031;x;y\r\nnop c d ;bad".toList other :=
    hstep (.uncomment "imm a\u20031;x;y\r\nnop c d ".toList (by decide : '\n' ∉ "bad".toList)
      (.inl rfl)) (by decide) (by decide)
  have hchain : Relation.ReflTransGen Respaced source other :=
    .head hwide (.head hcomment (.head hreturn (.single huncomment)))
  have hsource : assemble source = .error (.source 2 (.unknownOpcode "nop".toList)) := by decide
  exact ⟨hchain, hsource, (assemble_eq_of_respaced hchain).trans hsource⟩

end Assembly

end Tribyte
