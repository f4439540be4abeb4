import Mathlib.Data.List.Forall2
import Mathlib.Data.List.Induction
import Mathlib.Data.Nat.Digits.Defs
import Tribyte.Proofs.Text.Case
import Tribyte.Proofs.Text.Hexadecimal

/-!
# Literals and their values

A literal is the mark of a base, or no mark for the base ten, and then one digit or more. Its value
is the number of the digits and has no bound. A literal is read as the byte of its value, and as a
fault if that is no byte, so nothing is ever cut off. Zeros in front of the digits do not count.
-/

namespace Tribyte

def Fault.mapText (f : Text → Text) : Fault → Fault
  | .tokenCount n => .tokenCount n
  | .malformedNumber t => .malformedNumber (f t)
  | .tooWide t => .tooWide (f t)
  | .unknownOpcode t => .unknownOpcode (f t)
  | .unknownOperand t => .unknownOperand (f t)
  | .emptyTerm t => .emptyTerm (f t)

theorem Text.eq_or_eq_toUpper {c d : Char} (h : c.toLower = d) : c = d ∨ c = d.toUpper := by
  have hback : ∀ n < 26, (Char.ofNat (97 + n)).toUpper = Char.ofNat (65 + n) := by decide
  rcases toLower_cases c with hsame | ⟨n, hn, hc, hlower⟩
  · exact .inl (hsame.symm.trans h)
  · rw [← h, hlower, hback n hn]
    exact .inr hc

namespace Numeral

def IsDigit (base : Nat) (c : Char) (d : Nat) : Prop :=
  d < base ∧ (c = d.digitChar ∨ c = d.digitChar.toUpper)

/-- One or more digits, the first one highest, and the number that they stand for. -/
def Denotes (base : Nat) (digits : Text) (v : Nat) : Prop :=
  digits ≠ [] ∧ ∃ values, List.Forall₂ (IsDigit base) digits values ∧
    v = Nat.ofDigits base values.reverse

inductive BaseMark : Text → Nat → Prop
  | hexadecimal {c : Char} : c = 'x' ∨ c = 'X' → BaseMark ['0', c] 16
  | binary {c : Char} : c = 'b' ∨ c = 'B' → BaseMark ['0', c] 2
  | decimal : BaseMark [] 10

def Literal (token : Text) (v : Nat) : Prop :=
  ∃ mark base digits, BaseMark mark base ∧ Denotes base digits v ∧ token = mark ++ digits

theorem lt_of_digit? {base d : Nat} {c : Char} (h : digit? base c = some d) : d < base := by
  simp only [digit?, Option.ite_none_right_eq_some, Option.some.injEq] at h
  exact h.2 ▸ h.1

theorem digit?_of_lt {base d : Nat} {c : Char} (h : digit? 16 c = some d) (hd : d < base) :
    digit? base c = some d := by
  simp only [digit?, Option.ite_none_right_eq_some, Option.some.injEq] at h ⊢
  by_cases hdigit : c.isDigit = true
  · rw [if_pos hdigit] at h ⊢
    exact ⟨h.2 ▸ hd, h.2⟩
  · rw [if_neg hdigit] at h ⊢
    by_cases hlower : c.isLower = true
    · rw [if_pos hlower] at h ⊢
      exact ⟨h.2 ▸ hd, h.2⟩
    · rw [if_neg hlower] at h
      exact absurd h.1 (Nat.lt_irrefl 16)

theorem eq_digitChar_of_digit? {base d : Nat} {c : Char} (hbase : base ≤ 16)
    (h : digit? base c = some d) : c = d.digitChar := by
  have hdecimal : ∀ d < 10, Char.ofNat (48 + d) = d.digitChar := by decide
  have hletter : ∀ d < 6, Char.ofNat (97 + d) = (d + 10).digitChar := by decide
  have hzero : '0'.toNat = 48 := rfl
  have ha : 'a'.toNat = 97 := rfl
  simp only [digit?, Option.ite_none_right_eq_some, Option.some.injEq] at h
  obtain ⟨hlt, rfl⟩ := h
  by_cases hdigit : c.isDigit = true
  · have hrange : 48 ≤ c.toNat ∧ c.toNat ≤ 57 := by
      simpa [Char.isDigit, UInt32.le_iff_toNat_le] using hdigit
    rw [if_pos hdigit, hzero, ← hdecimal _ (by omega), Nat.add_sub_cancel' hrange.1,
      Char.ofNat_toNat]
  · rw [if_neg hdigit] at hlt ⊢
    by_cases hlower : c.isLower = true
    · have hval : ('a'.val ≤ c.val && c.val ≤ 'z'.val) = true := hlower
      have hrange : 97 ≤ c.toNat ∧ c.toNat ≤ 122 := by
        simpa [UInt32.le_iff_toNat_le] using hval
      rw [if_pos hlower, ha] at hlt ⊢
      rw [← hletter _ (by omega), Nat.add_sub_cancel' hrange.1, Char.ofNat_toNat]
    · rw [if_neg hlower] at hlt
      exact absurd hlt (Nat.lt_irrefl base)

theorem IsDigit.toLower_eq {base d : Nat} {c : Char} (hbase : base ≤ 16) (h : IsDigit base c d) :
    c.toLower = d.digitChar := by
  have hall : ∀ d < 16, d.digitChar.toLower = d.digitChar ∧
      d.digitChar.toUpper.toLower = d.digitChar := by decide
  obtain ⟨hd, rfl | rfl⟩ := h
  · exact (hall d (by omega)).1
  · exact (hall d (by omega)).2

theorem digit?_toLower_eq_some_iff {base d : Nat} {c : Char} (hbase : base ≤ 16) :
    digit? base c.toLower = some d ↔ IsDigit base c d := by
  constructor
  · intro h
    exact ⟨lt_of_digit? h, Text.eq_or_eq_toUpper (eq_digitChar_of_digit? hbase h)⟩
  · intro h
    rw [h.toLower_eq hbase]
    exact digit?_of_lt (digit?_digitChar (Nat.lt_of_lt_of_le h.1 hbase)) h.1

theorem mapM_digit?_lower_eq_some_iff {base : Nat} (hbase : base ≤ 16) {digits : Text}
    {values : List Nat} :
    (Text.lower digits).mapM (digit? base) = some values ↔
      List.Forall₂ (IsDigit base) digits values := by
  induction digits generalizing values with
  | nil => simp [Text.lower, eq_comm (a := [])]
  | cons c digits ih =>
    rw [List.forall₂_cons_left_iff]
    simp only [Text.lower, List.map_cons, List.mapM_cons] at ih ⊢
    simp only [Option.bind_eq_bind, Option.bind_eq_some_iff, Option.pure_def, Option.some.injEq,
      ih, digit?_toLower_eq_some_iff hbase]
    constructor
    · rintro ⟨d, hd, tail, htail, rfl⟩
      exact ⟨d, tail, hd, htail, rfl⟩
    · rintro ⟨d, tail, hd, htail, rfl⟩
      exact ⟨d, hd, tail, htail, rfl⟩

theorem total_eq_ofDigits (base : Nat) (values : List Nat) :
    total base values = Nat.ofDigits base values.reverse := by
  induction values using List.reverseRecOn with
  | nil => rfl
  | append_singleton values d ih =>
    rw [total_append_singleton, ih, List.reverse_append, List.reverse_singleton,
      List.singleton_append, Nat.ofDigits_cons, Nat.add_comm]

theorem value?_eq {n : Numeral} (h : unsigned n.digits ≠ []) :
    n.value? = ((unsigned n.digits).mapM (digit? n.base)).bind fun values =>
      if total n.base values < UInt32.size then some (total n.base values) else none := by
  unfold value?
  split
  · contradiction
  · cases (unsigned n.digits).mapM (digit? n.base) <;> rfl

theorem value?_of_denotes {n : Numeral} {digits : Text} {v : Nat} (hbase : n.base ≤ 16)
    (hn : unsigned n.digits = Text.lower digits) (h : Denotes n.base digits v) :
    n.value? = if v < UInt32.size then some v else none := by
  obtain ⟨hne, values, hvalues, rfl⟩ := h
  have hmap := (mapM_digit?_lower_eq_some_iff hbase).mpr hvalues
  rw [value?_eq (by simpa [hn, Text.lower] using hne), hn, hmap, ← total_eq_ofDigits]
  rfl

theorem denotes_of_value? {n : Numeral} {digits : Text} {v : Nat} (hbase : n.base ≤ 16)
    (hn : unsigned n.digits = Text.lower digits) (h : n.value? = some v) :
    Denotes n.base digits v := by
  have hne : unsigned n.digits ≠ [] := by
    intro hnil
    rw [value?, hnil] at h
    contradiction
  rw [value?_eq hne, hn, Option.bind_eq_some_iff] at h
  obtain ⟨values, hvalues, h⟩ := h
  rw [Option.ite_none_right_eq_some, Option.some.injEq, total_eq_ofDigits] at h
  rw [hn] at hne
  exact ⟨by simpa [Text.lower] using hne, values, (mapM_digit?_lower_eq_some_iff hbase).mp hvalues,
    h.2.symm⟩

theorem byte_of_denotes {n : Numeral} {digits : Text} {v : Nat} (hbase : n.base ≤ 16)
    (hn : unsigned n.digits = Text.lower digits) (h : Denotes n.base digits v) (token : Text) :
    byte token n = if v < 256 then .ok (UInt8.ofNat v)
      else .error (if v < UInt32.size then .tooWide token else .malformedNumber token) := by
  have hsize : 256 < UInt32.size := by decide
  rw [byte, value?_of_denotes hbase hn h]
  by_cases hv : v < UInt32.size
  · by_cases hbyte : v < 256 <;> simp [hv, hbyte]
  · have hbyte : ¬ v < 256 := by omega
    simp [hv, hbyte]

theorem exists_unsigned_lower (digits : Text) :
    ∃ written, (digits = written ∨ digits = '+' :: written) ∧
      unsigned (Text.lower digits) = Text.lower written := by
  unfold unsigned
  split
  · rename_i rest hplus
    obtain ⟨c, written, rfl, hc, rfl⟩ := List.map_eq_cons_iff.mp hplus
    obtain rfl : c = '+' := by simpa using Text.eq_or_eq_toUpper hc
    exact ⟨written, .inr rfl, rfl⟩
  · exact ⟨digits, .inl rfl, rfl⟩

theorem exists_digitChar_of_mem_lower {base : Nat} (hbase : base ≤ 16) {digits : Text}
    {values : List Nat} (h : List.Forall₂ (IsDigit base) digits values) :
    ∀ c ∈ Text.lower digits, ∃ d < base, c = d.digitChar := by
  induction h with
  | nil => simp [Text.lower]
  | cons hdigit _ ih =>
    rw [Text.lower, List.map_cons, List.forall_mem_cons]
    exact ⟨⟨_, hdigit.1, hdigit.toLower_eq hbase⟩, ih⟩

theorem Denotes.unsigned_lower {base v : Nat} {digits : Text} (hbase : base ≤ 16)
    (h : Denotes base digits v) : unsigned (Text.lower digits) = Text.lower digits := by
  obtain ⟨-, values, hvalues, -⟩ := h
  refine unsigned_of_plain fun c hc => ?_
  obtain ⟨d, hd, rfl⟩ := exists_digitChar_of_mem_lower hbase hvalues c hc
  exact Text.isPlain_digitChar (Nat.lt_of_lt_of_le hd hbase)

theorem Denotes.replicate_zero_append {base v : Nat} {digits : Text} (hbase : 0 < base)
    (h : Denotes base digits v) (k : Nat) : Denotes base (List.replicate k '0' ++ digits) v := by
  obtain ⟨hne, values, hvalues, rfl⟩ := h
  refine ⟨by simp [hne], List.replicate k 0 ++ values, List.rel_append ?_ hvalues, ?_⟩
  · induction k with
    | zero => exact .nil
    | succ k ih => exact .cons ⟨hbase, .inl rfl⟩ ih
  · rw [← total_eq_ofDigits, ← total_eq_ofDigits, total_replicate_zero_append]

theorem BaseMark.base_pos {mark : Text} {base : Nat} (h : BaseMark mark base) : 0 < base := by
  cases h <;> decide

theorem BaseMark.base_le {mark : Text} {base : Nat} (h : BaseMark mark base) : base ≤ 16 := by
  cases h <;> decide

theorem ofToken?_mark_append {mark : Text} {base : Nat} (h : BaseMark mark base)
    (hne : mark ≠ []) (rest : Text) :
    ofToken? (mark ++ rest) = some ⟨base, Text.lower rest⟩ := by
  cases h with
  | hexadecimal hc => rcases hc with rfl | rfl <;> rfl
  | binary hc => rcases hc with rfl | rfl <;> rfl
  | decimal => contradiction

theorem ofToken?_decimal {digits : Text} {v : Nat} (h : Denotes 10 digits v) :
    ofToken? digits = some ⟨10, Text.lower digits⟩ := by
  obtain ⟨hne, values, hvalues, -⟩ := h
  have hdigit : ∀ c ∈ Text.lower digits, c.isDigit = true := by
    intro c hc
    have hall : ∀ d < 10, d.digitChar.isDigit = true := by decide
    obtain ⟨d, hd, rfl⟩ := exists_digitChar_of_mem_lower (by decide) hvalues c hc
    exact hall d hd
  unfold ofToken?
  split
  · rename_i htoken
    have hx := hdigit 'x' (by simp [htoken])
    contradiction
  · rename_i htoken
    have hb := hdigit 'b' (by simp [htoken])
    contradiction
  · rename_i c rest _ _ htoken
    rw [if_pos (hdigit c (by simp [htoken])), htoken]
  · rename_i htoken
    exact absurd (List.map_eq_nil_iff.mp htoken) hne

theorem ofToken?_of_denotes {mark digits : Text} {base v : Nat} (hmark : BaseMark mark base)
    (h : Denotes base digits v) : ofToken? (mark ++ digits) = some ⟨base, Text.lower digits⟩ := by
  by_cases hne : mark = []
  · subst hne
    cases hmark
    exact ofToken?_decimal h
  · exact ofToken?_mark_append hmark hne digits

end Numeral

namespace Token

open Numeral

theorem numeral?_of_literal {token : Text} {v : Nat} (h : Literal token v) :
    numeral? token = some (if v < 256 then .ok (UInt8.ofNat v)
      else .error (if v < UInt32.size then .tooWide token else .malformedNumber token)) := by
  obtain ⟨mark, base, digits, hmark, hdigits, rfl⟩ := h
  have hbase := hmark.base_le
  rw [numeral?, ofToken?_of_denotes hmark hdigits, Option.map_some,
    byte_of_denotes hbase (hdigits.unsigned_lower hbase) hdigits]

/-- A literal is read as the byte of its value or, above 255, as a fault, and never as another byte,
however many digits it has. With zeros in front of the digits it has the same value and is read as
the same byte, or as the same fault with the longer text. -/
theorem numeral?_literal_eq_value {mark digits : Text} {base v : Nat} (hmark : BaseMark mark base)
    (hdigits : Denotes base digits v) :
    (∀ b, numeral? (mark ++ digits) = some (.ok b) ↔ v ≤ 255 ∧ b.toNat = v) ∧
    ((∃ fault, numeral? (mark ++ digits) = some (.error fault)) ↔ 255 < v) ∧
    ∀ k, Denotes base (List.replicate k '0' ++ digits) v ∧
      numeral? (mark ++ (List.replicate k '0' ++ digits)) =
        (numeral? (mark ++ digits)).map
          (·.mapError (.mapText fun _ => mark ++ (List.replicate k '0' ++ digits))) := by
  have hliteral : Literal (mark ++ digits) v := ⟨mark, base, digits, hmark, hdigits, rfl⟩
  rw [numeral?_of_literal hliteral]
  refine ⟨fun b => ?_, ?_, fun k => ?_⟩
  · by_cases hv : v < 256
    · rw [if_pos hv, Option.some.injEq, Except.ok.injEq]
      constructor
      · rintro rfl
        exact ⟨by omega, by simp [Nat.mod_eq_of_lt hv]⟩
      · rintro ⟨-, hb⟩
        rw [← hb, UInt8.ofNat_toNat]
    · have hwide : ¬ v ≤ 255 := by omega
      simp [hv, hwide]
  · by_cases hv : v < 256
    · have hfits : ¬ 255 < v := by omega
      simp [hv, hfits]
    · have hwide : 255 < v := by omega
      simp [hv, hwide]
  · have hzeros := hdigits.replicate_zero_append hmark.base_pos k
    refine ⟨hzeros, ?_⟩
    rw [numeral?_of_literal ⟨mark, base, _, hmark, hzeros, rfl⟩]
    by_cases hv : v < 256
    · simp [hv, Except.mapError]
    · by_cases hsize : v < UInt32.size <;> simp [hv, hsize, Except.mapError, Fault.mapText]

theorem numeral?_literal_eq_value_bounds :
    BaseMark ['0', 'X'] 16 ∧ Denotes 16 ['f', 'F'] 255 ∧
    Denotes 10 "4294967551".toList 4294967551 ∧
    numeral? "0XfF".toList = some (.ok 255) ∧
    numeral? "0X000000000fF".toList = some (.ok 255) ∧
    ∃ fault, numeral? "4294967551".toList = some (.error fault) := by
  have hmark : BaseMark ['0', 'X'] 16 := .hexadecimal (.inr rfl)
  have hbyte : Denotes 16 ['f', 'F'] 255 :=
    ⟨by decide, [15, 15], (mapM_digit?_lower_eq_some_iff (by decide)).mp (by decide), by decide⟩
  have hlong : Denotes 10 "4294967551".toList 4294967551 :=
    ⟨by decide, [4, 2, 9, 4, 9, 6, 7, 5, 5, 1],
      (mapM_digit?_lower_eq_some_iff (by decide)).mp (by decide), by decide⟩
  obtain ⟨hok, -, hzeros⟩ := numeral?_literal_eq_value hmark hbyte
  obtain ⟨-, herror, -⟩ := numeral?_literal_eq_value .decimal hlong
  have hread : numeral? "0XfF".toList = some (.ok 255) := (hok 255).mpr ⟨by decide, rfl⟩
  refine ⟨hmark, hbyte, hlong, hread, ?_, herror.mpr (by decide)⟩
  exact (hzeros 9).2.trans (congrArg _ hread)

end Token

end Tribyte
