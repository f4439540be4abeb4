import Mathlib.Data.List.DropRight
import Tribyte.Text

/-!
# Text in pieces

A text splits at a mark into pieces that do not hold it. The pieces are determined by the text, and
splitting computes them. Lines that each end in a line feed are such pieces, with an empty last one.
Elsewhere a piece is empty because marks meet or stand at an end. What is put into a text without a
mark in it lands in one piece. Taking characters while a test holds gives the longest such front
part, and trimming leaves a text without white space as it is.
-/

namespace Tribyte.Text

/-- The text is these pieces with a mark between each and the next. -/
def Pieces (mark : Char) (text : Text) (pieces : List Text) : Prop :=
  pieces ≠ [] ∧ (∀ p ∈ pieces, mark ∉ p) ∧ [mark].intercalate pieces = text

theorem not_mem_of_mem_splitOn {mark : Char} {text : Text} :
    ∀ p ∈ text.splitOn mark, mark ∉ p := by
  induction text with
  | nil => simp
  | cons c text ih =>
    rw [List.splitOn_cons_eq_if_modifyHead]
    obtain ⟨first, rest, hsplit⟩ := List.exists_cons_of_ne_nil (List.splitOn_ne_nil mark text)
    rw [hsplit] at ih ⊢
    simp only [List.mem_cons, forall_eq_or_imp] at ih
    split
    · simp [ih.1]
      exact ih.2
    · rename_i hc
      rw [beq_iff_eq] at hc
      simp only [List.modifyHead_cons, List.mem_cons, forall_eq_or_imp, not_or]
      exact ⟨⟨fun h => hc h.symm, ih.1⟩, ih.2⟩

theorem subset_of_mem_splitOn {mark : Char} {text : Text} :
    ∀ p ∈ text.splitOn mark, p ⊆ text := by
  induction text with
  | nil => simp
  | cons c text ih =>
    rw [List.splitOn_cons_eq_if_modifyHead]
    obtain ⟨first, rest, hsplit⟩ := List.exists_cons_of_ne_nil (List.splitOn_ne_nil mark text)
    rw [hsplit] at ih ⊢
    have htail : ∀ p ∈ first :: rest, p ⊆ c :: text := fun p hp =>
      List.subset_cons_of_subset c (ih p hp)
    split
    · exact List.forall_mem_cons.mpr ⟨List.nil_subset _, htail⟩
    · rw [List.modifyHead_cons]
      exact List.forall_mem_cons.mpr ⟨List.cons_subset_cons c (ih first List.mem_cons_self),
        fun p hp => htail p (List.mem_cons_of_mem first hp)⟩

theorem pieces_iff {mark : Char} {text : Text} {pieces : List Text} :
    Pieces mark text pieces ↔ text.splitOn mark = pieces := by
  constructor
  · intro h
    obtain ⟨hne, hfree, rfl⟩ := h
    exact List.splitOn_intercalate mark hfree hne
  · intro h
    subst h
    exact ⟨List.splitOn_ne_nil mark text, not_mem_of_mem_splitOn, List.intercalate_splitOn mark⟩

theorem splitOn_flatMap_append_mark {mark : Char} : ∀ {lines : List Text},
    (∀ line ∈ lines, mark ∉ line) →
    (lines.flatMap (· ++ [mark])).splitOn mark = lines ++ [[]]
  | [], _ => rfl
  | line :: lines, h => by
    have ih := splitOn_flatMap_append_mark fun l hl => h l (List.mem_cons_of_mem line hl)
    rw [List.flatMap_cons, List.append_assoc, List.singleton_append,
      List.splitOn_append_cons_self_of_not_mem (h line List.mem_cons_self), ih]
    rfl

theorem length_splitOn (mark : Char) (text : Text) :
    (text.splitOn mark).length = text.count mark + 1 := by
  induction text with
  | nil => rfl
  | cons c text ih =>
    rw [List.splitOn_cons_eq_if_modifyHead, List.count_cons]
    split <;> simp [ih]

theorem idxOf?_append_cons_self {c : Char} {front : Text} (h : c ∉ front) (back : Text) :
    (front ++ c :: back).idxOf? c = some front.length := by
  induction front with
  | nil => simp [List.idxOf?_cons]
  | cons d front ih =>
    have hd : (d == c) = false := beq_eq_false_iff_ne.mpr fun hdc => h (hdc ▸ List.mem_cons_self)
    rw [List.cons_append, List.idxOf?_cons, hd, ih fun hmem => h (List.mem_cons_of_mem d hmem)]
    rfl

section EmptyPieces

variable {mark : Char}

theorem tail_splitOn_cons_self (text : Text) :
    ((mark :: text).splitOn mark).tail = text.splitOn mark := by
  rw [List.splitOn_cons_eq_if_modifyHead, if_pos BEq.rfl, List.tail_cons]

theorem tail_splitOn_cons_of_ne {c : Char} (h : c ≠ mark) (text : Text) :
    ((c :: text).splitOn mark).tail = (text.splitOn mark).tail := by
  rw [List.splitOn_cons_eq_if_modifyHead, if_neg (by simpa using h)]
  cases text.splitOn mark <;> rfl

theorem nil_mem_splitOn_iff_tail {text : Text} :
    [] ∈ text.splitOn mark ↔
      text = [] ∨ text.head? = some mark ∨ [] ∈ (text.splitOn mark).tail := by
  cases text with
  | nil => simp
  | cons c text =>
    rw [List.splitOn_cons_eq_if_modifyHead]
    by_cases hc : c = mark
    · simp [hc]
    · obtain ⟨first, rest, hsplit⟩ := List.exists_cons_of_ne_nil (List.splitOn_ne_nil mark text)
      simp [hc, hsplit]

theorem nil_mem_tail_splitOn_iff {text : Text} :
    [] ∈ (text.splitOn mark).tail ↔ text.getLast? = some mark ∨ [mark, mark] <:+: text := by
  induction text with
  | nil => simp
  | cons c text ih =>
    rw [List.infix_cons_iff, List.cons_prefix_cons]
    by_cases hc : c = mark
    · subst hc
      rw [tail_splitOn_cons_self, nil_mem_splitOn_iff_tail, ih]
      cases text with
      | nil => simp
      | cons d text => simp [List.cons_prefix_cons, eq_comm, or_left_comm]
    · rw [tail_splitOn_cons_of_ne hc, ih]
      cases text with
      | nil => simp [hc]
      | cons d text => simp [Ne.symm hc]

theorem nil_mem_splitOn_iff {text : Text} :
    [] ∈ text.splitOn mark ↔
      text = [] ∨ text.head? = some mark ∨ text.getLast? = some mark ∨
        [mark, mark] <:+: text := by
  rw [nil_mem_splitOn_iff_tail, nil_mem_tail_splitOn_iff]

end EmptyPieces

def firstPiece (mark : Char) (text : Text) : Text := text.takeWhile (· != mark)

def lastPiece (mark : Char) (text : Text) : Text := text.rtakeWhile (· != mark)

theorem not_mem_lastPiece (mark : Char) (text : Text) : mark ∉ lastPiece mark text := by
  intro h
  have hne := List.mem_rtakeWhile_imp h
  simp at hne

theorem exists_splitOn_append (mark : Char) (front : Text) :
    ∃ before, ∀ text : Text,
      (front ++ text).splitOn mark = before ++ (lastPiece mark front ++ text).splitOn mark := by
  have hfront : front.rdropWhile (· != mark) ++ lastPiece mark front = front :=
    List.rdropWhile_append_rtakeWhile
  rcases List.eq_nil_or_concat' (front.rdropWhile (· != mark)) with hhead | ⟨head, c, hhead⟩
  · refine ⟨[], fun text => ?_⟩
    rw [hhead, List.nil_append] at hfront
    rw [hfront, List.nil_append]
  · -- what stands in front of the last piece ends with a mark
    have hmark := List.rdropWhile_last_not (· != mark) front (by simp [hhead])
    obtain rfl : c = mark := by simpa [hhead] using hmark
    refine ⟨head.splitOn c, fun text => ?_⟩
    have hsplit : front ++ text = head ++ c :: (lastPiece c front ++ text) := by
      rw [hhead, List.append_assoc, List.singleton_append] at hfront
      rw [← List.cons_append, ← List.append_assoc, hfront]
    rw [hsplit, List.splitOn_append_cons_self]

theorem exists_splitOn_append_of_not_mem (mark : Char) (back : Text) :
    ∃ after, ∀ text : Text, mark ∉ text →
      (text ++ back).splitOn mark = (text ++ firstPiece mark back) :: after := by
  have hback : firstPiece mark back ++ back.dropWhile (· != mark) = back :=
    List.takeWhile_append_dropWhile
  have hfree : mark ∉ firstPiece mark back := fun h => by
    have hne := List.mem_takeWhile_imp h
    simp at hne
  have hmark := List.head?_dropWhile_not (· != mark) back
  cases htail : back.dropWhile (· != mark) with
  | nil =>
    rw [htail, List.append_nil] at hback
    refine ⟨[], fun text htext => ?_⟩
    rw [hback] at hfree ⊢
    exact List.splitOn_eq_singleton (by simp [htext, hfree])
  | cons c tail =>
    obtain rfl : c = mark := by simpa [htail] using hmark
    refine ⟨tail.splitOn c, fun text htext => ?_⟩
    rw [htail] at hback
    nth_rewrite 1 [← hback]
    rw [← List.append_assoc]
    exact List.splitOn_append_cons_self_of_not_mem (by simp [htext, hfree]) tail

theorem exists_splitOn_between (mark : Char) (front back : Text) :
    ∃ before after, ∀ text : Text, mark ∉ text →
      (front ++ (text ++ back)).splitOn mark =
        before ++ (lastPiece mark front ++ text ++ firstPiece mark back) :: after := by
  obtain ⟨before, hfront⟩ := exists_splitOn_append mark front
  obtain ⟨after, hback⟩ := exists_splitOn_append_of_not_mem mark back
  refine ⟨before, after, fun text htext => ?_⟩
  have hfree : mark ∉ lastPiece mark front ++ text := by
    simp [htext, not_mem_lastPiece mark front]
  rw [hfront, ← List.append_assoc, hback _ hfree]

theorem takeWhile_eq_iff {p : Char → Bool} {text front : Text} :
    text.takeWhile p = front ↔
      ∃ rest, text = front ++ rest ∧ (∀ c ∈ front, p c = true) ∧ ∀ c ∈ rest.head?, p c = false := by
  constructor
  · intro h
    subst h
    refine ⟨text.dropWhile p, List.takeWhile_append_dropWhile.symm, ?_, ?_⟩
    · exact List.all_eq_true.mp List.all_takeWhile
    · intro c hc
      have hhead := List.head?_dropWhile_not p text
      rw [Option.mem_def.mp hc] at hhead
      exact hhead
  · intro h
    obtain ⟨rest, rfl, hfront, hrest⟩ := h
    rw [List.takeWhile_append_of_pos hfront]
    cases rest with
    | nil => simp
    | cons c rest => simp [hrest c rfl]

def trimEnd (t : Text) : Text := t.rdropWhile isBlank

def trim (t : Text) : Text := trimEnd (t.dropWhile isBlank)

theorem trim_eq_self {t : Text} (h : ∀ c ∈ t, isBlank c = false) : t.trim = t := by
  have hfront : t.dropWhile isBlank = t := by
    cases t with
    | nil => rfl
    | cons c t => exact List.dropWhile_cons_of_neg (by simp [h c List.mem_cons_self])
  rw [trim, hfront, trimEnd, List.rdropWhile_eq_self_iff]
  intro hne
  simp [h _ (List.getLast_mem hne)]
end Tribyte.Text
