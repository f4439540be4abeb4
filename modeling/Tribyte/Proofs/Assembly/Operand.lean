import Tribyte.Proofs.Assembly.Malformed
import Tribyte.Proofs.Constants.Flags

/-!
# Operands and their terms

The value of an operand follows from which terms it has. Their order, how often each of them occurs
and how they are put together do not count. What cannot be read is reported by the leftmost bad
term: by that term alone, or by the whole operand where the term is empty.
-/

namespace Tribyte

/-- The message has the text in back quotes, and nothing else. -/
def Fault.Quotes (fault : Fault) (t : Text) : Prop :=
  ∃ front back : String, fault.message = front ++ String.ofList t ++ back ∧
    front.toList.getLast? = some '\x60' ∧ back.toList.head? = some '\x60' ∧
    (front ++ back).toList.count '\x60' = 2

namespace Token

inductive BadTerm (whole : Text) : Text → Fault → Prop
  | empty : BadTerm whole [] (.emptyTerm whole)
  | malformed {part : Text} :
      numeral? part = some (.error (.malformedNumber part)) →
      BadTerm whole part (.malformedNumber part)
  | tooWide {part : Text} :
      numeral? part = some (.error (.tooWide part)) → BadTerm whole part (.tooWide part)
  | unknown {part : Text} :
      part ≠ [] → numeral? part = none → (∀ value, ¬ Term part value) →
      BadTerm whole part (.unknownOperand part)

variable {token : Text} {value : UInt8} {fault : Fault}

theorem term_unique : Relator.RightUnique Term := by
  intro part v w hv hw
  have hread (value : UInt8) := @reading_eq_ok_iff _ Constants.operandNames_unambiguous
    Constants.operandNames_noNumeral part value (.unknownOperand part)
  have hsame := ((hread v).mpr (term_iff.mp hv)).symm.trans ((hread w).mpr (term_iff.mp hw))
  exact Except.ok.inj hsame

theorem numeral?_eq_error {part : Text} (h : numeral? part = some (.error fault)) :
    fault = .malformedNumber part ∨ fault = .tooWide part := by
  obtain ⟨n, -, hbyte⟩ := Option.map_eq_some_iff.mp h
  unfold Numeral.byte at hbyte
  split at hbyte
  · exact .inl (Except.error.inj hbyte).symm
  · split at hbyte
    · contradiction
    · exact .inr (Except.error.inj hbyte).symm

theorem ne_nil_of_numeral? {part : Text} {result : Except Fault UInt8}
    (h : numeral? part = some result) : part ≠ [] := by
  rintro rfl
  cases h

theorem BadTerm.term_eq {whole part : Text} (h : BadTerm whole part fault) :
    term whole part = .error fault := by
  cases part with
  | nil =>
    cases h with
    | empty => rfl
    | malformed h | tooWide h => exact absurd rfl (ne_nil_of_numeral? h)
    | unknown hne => exact absurd rfl hne
  | cons c part =>
    cases h with
    | malformed h | tooWide h => simp only [term, h]
    | unknown hne hnumeral hterm =>
      cases hsymbol : symbol? (c :: part) with
      | none => simp only [term, hnumeral, hsymbol]
      | some value =>
        have hread : term whole (c :: part) = .ok value := by simp only [term, hnumeral, hsymbol]
        exact absurd (term_eq_ok_iff.mp hread).2 (hterm value)

theorem badTerm_of_term_eq {whole part : Text} (h : term whole part = .error fault) :
    BadTerm whole part fault := by
  cases part with
  | nil =>
    cases h
    exact .empty
  | cons c part =>
    have hne : c :: part ≠ [] := List.cons_ne_nil c part
    have hterm (value : UInt8) : ¬ Term (c :: part) value := by
      intro hvalue
      rw [term_eq_ok_iff.mpr ⟨hne, hvalue⟩] at h
      contradiction
    cases hnumeral : numeral? (c :: part) with
    | some result =>
      obtain rfl : result = .error fault := by simpa only [term, hnumeral] using h
      rcases numeral?_eq_error hnumeral with rfl | rfl
      · exact .malformed hnumeral
      · exact .tooWide hnumeral
    | none =>
      cases hsymbol : symbol? (c :: part) with
      | some value => simp only [term, hnumeral, hsymbol, reduceCtorEq] at h
      | none =>
        simp only [term, hnumeral, hsymbol, Except.error.injEq] at h
        subst h
        exact .unknown hne hnumeral hterm

theorem BadTerm.quotes {whole part : Text} (h : BadTerm whole part fault) :
    fault.Quotes (if part = [] then whole else part) := by
  cases h with
  | empty =>
    rw [if_pos rfl]
    exact ⟨"empty term in operand `", "`", rfl, by decide⟩
  | malformed h =>
    rw [if_neg (ne_nil_of_numeral? h)]
    exact ⟨"malformed number `", "`", rfl, by decide⟩
  | tooWide h =>
    rw [if_neg (ne_nil_of_numeral? h)]
    exact ⟨"value `", "` does not fit in a byte", rfl, by decide⟩
  | unknown hne =>
    rw [if_neg hne]
    exact ⟨"unknown operand `", "`", rfl, by decide⟩

theorem exists_operand_iff :
    (∃ value, operand token = .ok value) ↔
      ∀ part ∈ terms token, part ≠ [] ∧ ∃ value, Term part value := by
  simp only [operand, Traversal.map_eq_ok_iff, Traversal.mapM_eq_ok_iff]
  constructor
  · intro h part hpart
    obtain ⟨-, values, hvalues, -⟩ := h
    obtain ⟨v, hv⟩ := Traversal.exists_forall₂_iff.mp ⟨values, hvalues⟩ part hpart
    obtain ⟨hne, hterm⟩ := term_eq_ok_iff.mp hv
    exact ⟨hne, v, hterm⟩
  · intro h
    obtain ⟨values, hvalues⟩ := Traversal.exists_forall₂_iff.mpr fun part hpart => (h part hpart).2
    exact ⟨_, values, forall₂_term_iff.mpr ⟨fun part hpart => (h part hpart).1, hvalues⟩, rfl⟩

theorem has_of_operand (h : operand token = .ok value) (k : Nat) :
    Mask.Has value k ↔ ∃ part ∈ terms token, ∃ v, Term part v ∧ Mask.Has v k := by
  obtain ⟨parts, values, hparts, -, hterms, rfl⟩ := operand_eq_ok_iff.mp h
  obtain rfl : terms token = parts := Text.pieces_iff.mp hparts
  rw [Mask.has_foldr_or, Traversal.exists_mem_iff_of_forall₂ term_unique hterms]

theorem operand_of_has (hread : ∀ part ∈ terms token, part ≠ [] ∧ ∃ v, Term part v)
    (hvalue : ∀ k, Mask.Has value k ↔ ∃ part ∈ terms token, ∃ v, Term part v ∧ Mask.Has v k) :
    operand token = .ok value := by
  obtain ⟨found, hfound⟩ := exists_operand_iff.mpr hread
  rw [hfound, Mask.eq_of_has_iff fun k => (has_of_operand hfound k).trans (hvalue k).symm]

theorem operand_congr {other : Text} (hsame : ∀ part, part ∈ terms other ↔ part ∈ terms token)
    (h : operand token = .ok value) : operand other = .ok value := by
  apply operand_of_has
  · intro part hpart
    exact exists_operand_iff.mp ⟨value, h⟩ part ((hsame part).mp hpart)
  · intro k
    simp only [has_of_operand h, hsame]

section Joining

variable {front back : Text}

theorem terms_append_bar (front back : Text) :
    terms (front ++ '|' :: back) = terms front ++ terms back :=
  List.splitOn_append_cons_self front back

theorem operand_append_bar {v w : UInt8} (hfront : operand front = .ok v)
    (hback : operand back = .ok w) : operand (front ++ '|' :: back) = .ok (v ||| w) := by
  apply operand_of_has
  · rw [terms_append_bar, List.forall_mem_append]
    exact ⟨exists_operand_iff.mp ⟨v, hfront⟩, exists_operand_iff.mp ⟨w, hback⟩⟩
  · intro k
    rw [terms_append_bar, Mask.has_or, has_of_operand hfront, has_of_operand hback]
    simp only [List.mem_append, or_and_right, exists_or]

theorem operand_append_bar_eq_ok_iff :
    operand (front ++ '|' :: back) = .ok value ↔
      ∃ v w, operand front = .ok v ∧ operand back = .ok w ∧ value = v ||| w := by
  constructor
  · intro h
    have hread := exists_operand_iff.mp ⟨value, h⟩
    rw [terms_append_bar, List.forall_mem_append] at hread
    obtain ⟨v, hv⟩ := exists_operand_iff.mpr hread.1
    obtain ⟨w, hw⟩ := exists_operand_iff.mpr hread.2
    exact ⟨v, w, hv, hw, Except.ok.inj (h.symm.trans (operand_append_bar hv hw))⟩
  · intro h
    obtain ⟨v, w, hv, hw, rfl⟩ := h
    exact operand_append_bar hv hw

theorem operand_intercalate_eq_ok_iff {groups : List Text} (hne : groups ≠ []) :
    operand (['|'].intercalate groups) = .ok value ↔
      ∃ values, List.Forall₂ (fun group v => operand group = .ok v) groups values ∧
        value = values.foldr (· ||| ·) 0 := by
  induction groups generalizing value with
  | nil => contradiction
  | cons group groups ih =>
    simp only [List.forall₂_cons_left_iff]
    cases groups with
    | nil =>
      rw [List.intercalate_singleton]
      constructor
      · intro h
        exact ⟨[value], ⟨value, [], h, .nil, rfl⟩, by simp⟩
      · intro h
        obtain ⟨_, ⟨v, tail, hv, htail, rfl⟩, rfl⟩ := h
        cases htail
        simpa using hv
    | cons other groups =>
      rw [List.intercalate_cons_cons, List.append_assoc, List.singleton_append,
        operand_append_bar_eq_ok_iff]
      constructor
      · intro h
        obtain ⟨v, w, hv, hw, rfl⟩ := h
        obtain ⟨values, hvalues, rfl⟩ := (ih (List.cons_ne_nil other groups)).mp hw
        exact ⟨_, ⟨v, values, hv, hvalues, rfl⟩, rfl⟩
      · intro h
        obtain ⟨_, ⟨v, values, hv, hvalues, rfl⟩, rfl⟩ := h
        have hw := (ih (List.cons_ne_nil other groups)).mpr ⟨values, hvalues, rfl⟩
        exact ⟨v, _, hv, hw, rfl⟩

end Joining

theorem operand_eq_error_iff :
    operand token = .error fault ↔ ∃ part, ReachesTerm token part ∧ BadTerm token part fault := by
  constructor
  · intro h
    rw [operand, Traversal.map_eq_error_iff, Traversal.mapM_eq_error_iff_append] at h
    obtain ⟨front, part, back, hsplit, hfront, hpart⟩ := h
    obtain ⟨values, hvalues⟩ := Traversal.exists_forall₂_iff.mpr hfront
    obtain ⟨hne, hterms⟩ := forall₂_term_iff.mp hvalues
    exact ⟨part, ⟨front, back, values, Text.pieces_iff.mpr hsplit, hne, hterms⟩,
      badTerm_of_term_eq hpart⟩
  · intro h
    obtain ⟨part, hreach, hbad⟩ := h
    exact operand_of_reachesTerm hreach hbad.term_eq

/-- An operand can be read exactly if each of its terms can, and its value is the or of their bytes.
Every operand with the same terms has this value, and so has the or of the values of groups that
the terms are put into. An operand that cannot be read is reported by its leftmost bad term: an
empty one, which shows a bar too many, quotes the whole operand, and any other quotes itself. -/
theorem operand_eq_or_of_terms (token : Text) :
    ∃ parts, Text.Pieces '|' token parts ∧
      ((∃ value, operand token = .ok value) ↔
        ∀ part ∈ parts, part ≠ [] ∧ ∃ value, Term part value) ∧
      (∀ value, operand token = .ok value ↔ ∃ values, (∀ part ∈ parts, part ≠ []) ∧
        List.Forall₂ Term parts values ∧ value = values.foldr (· ||| ·) 0) ∧
      (∀ value other others, operand token = .ok value → Text.Pieces '|' other others →
        (∀ part, part ∈ others ↔ part ∈ parts) → operand other = .ok value) ∧
      (∀ value groups, groups ≠ [] → ['|'].intercalate groups = token →
        (operand token = .ok value ↔
          ∃ values, List.Forall₂ (fun group v => operand group = .ok v) groups values ∧
            value = values.foldr (· ||| ·) 0)) ∧
      (∀ v other w, operand token = .ok v → operand other = .ok w →
        operand (token ++ '|' :: other) = .ok (v ||| w)) ∧
      (∀ fault, operand token = .error fault ↔
        ∃ part, ReachesTerm token part ∧ BadTerm token part fault) ∧
      (∀ part fault, BadTerm token part fault →
        fault.Quotes (if part = [] then token else part)) ∧
      ([] ∈ parts ↔ token = [] ∨ token.head? = some '|' ∨ token.getLast? = some '|' ∨
        ['|', '|'] <:+: token) := by
  refine ⟨terms token, Text.pieces_iff.mpr rfl, exists_operand_iff, fun value => ?_, ?_, ?_,
    fun v other w => operand_append_bar, fun fault => operand_eq_error_iff,
    fun part fault => BadTerm.quotes, Text.nil_mem_splitOn_iff⟩
  · rw [operand_eq_ok_iff]
    constructor
    · intro h
      obtain ⟨parts, values, hparts, h⟩ := h
      obtain rfl : terms token = parts := Text.pieces_iff.mp hparts
      exact ⟨values, h⟩
    · intro h
      obtain ⟨values, h⟩ := h
      exact ⟨terms token, values, Text.pieces_iff.mpr rfl, h⟩
  · intro value other others h hothers hsame
    obtain rfl : terms other = others := Text.pieces_iff.mp hothers
    exact operand_congr hsame h
  · intro value groups hne htoken
    rw [← htoken]
    exact operand_intercalate_eq_ok_iff hne

/-- The first bad term of the second operand is an empty one, in front of an unknown name. -/
example : operand "eq|0X5|LT|eq".toList = .ok 0x1D ∧
    operand "eq||q".toList = .error (.emptyTerm "eq||q".toList) := by decide

end Token

end Tribyte
