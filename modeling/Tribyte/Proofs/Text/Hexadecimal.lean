import Tribyte.Assembly.Token
import Tribyte.Proofs.Text.Case

/-!
# Hexadecimal numbers read back

The digits that are written for a number have that number as their total, and zeros in front do not
change it. So what is written for a number is read as this number, whatever its size, and a byte
that is written in hexadecimal is a numeral of that byte.
-/

namespace Tribyte

namespace Numeral

theorem total_append_singleton (base : Nat) (ds : List Nat) (d : Nat) :
    total base (ds ++ [d]) = base * total base ds + d := by
  simp [total]

theorem total_replicate_zero_append (base k : Nat) (ds : List Nat) :
    total base (List.replicate k 0 ++ ds) = total base ds := by
  induction k with
  | zero => rfl
  | succ k ih =>
    rw [List.replicate_succ, List.cons_append, total, List.foldl_cons]
    simpa [total] using ih

theorem digit?_digitChar {d : Nat} (h : d < 16) : digit? 16 d.digitChar = some d := by
  have hall : ∀ d < 16, digit? 16 (Nat.digitChar d) = some d := by decide
  exact hall d h

theorem mapM_digit?_toDigits (n : Nat) :
    ∃ ds, (Nat.toDigits 16 n).mapM (digit? 16) = some ds ∧ total 16 ds = n := by
  induction n using Nat.strongRecOn with
  | ind n ih =>
    by_cases hn : n < 16
    · refine ⟨[n], ?_, by simp [total]⟩
      rw [Nat.toDigits_of_lt_base hn]
      simp [digit?_digitChar hn]
    · obtain ⟨ds, hds, htotal⟩ := ih (n / 16) (by omega)
      refine ⟨ds ++ [n % 16], ?_, ?_⟩
      · rw [Nat.toDigits_of_base_le (by decide) (by omega), List.mapM_append, hds]
        simp [digit?_digitChar (Nat.mod_lt n (by decide))]
      · rw [total_append_singleton, htotal]
        omega

end Numeral

namespace Text

theorem isPlain_digitChar {d : Nat} (h : d < 16) : IsPlain d.digitChar := by
  have hall : ∀ d < 16, IsPlain (Nat.digitChar d) := by decide
  exact hall d h

theorem plain_toDigits (n : Nat) : Plain (Nat.toDigits 16 n) := by
  induction n using Nat.strongRecOn with
  | ind n ih =>
    by_cases hn : n < 16
    · rw [Nat.toDigits_of_lt_base hn, plain_cons]
      exact ⟨isPlain_digitChar hn, by simp [Plain]⟩
    · rw [Nat.toDigits_of_base_le (by decide) (by omega), plain_append, plain_cons]
      exact ⟨ih (n / 16) (by omega), isPlain_digitChar (Nat.mod_lt n (by decide)), by simp [Plain]⟩

theorem plain_leftpad_toDigits (width n : Nat) :
    Plain ((Nat.toDigits 16 n).leftpad width '0') := by
  rw [List.leftpad, plain_append]
  refine ⟨fun c hc => ?_, plain_toDigits n⟩
  obtain rfl := List.eq_of_mem_replicate hc
  decide

theorem plain_hex (width n : Nat) : Plain (hex width n) := by
  rw [hex, plain_cons, plain_cons]
  exact ⟨by decide, by decide, plain_leftpad_toDigits width n⟩

end Text

theorem Numeral.unsigned_of_plain {t : Text} (h : t.Plain) : unsigned t = t := by
  unfold unsigned
  split
  · have hplus := h '+' List.mem_cons_self
    exact absurd hplus (by decide)
  · rfl

theorem Numeral.mapM_digit?_leftpad {digits : Text} {ds : List Nat} (width : Nat)
    (h : digits.mapM (digit? 16) = some ds) :
    ∃ k, (digits.leftpad width '0').mapM (digit? 16) = some (List.replicate k 0 ++ ds) := by
  refine ⟨width - digits.length, ?_⟩
  have hzeros (k : Nat) :
      (List.replicate k '0').mapM (digit? 16) = some (List.replicate k 0) := by
    induction k with
    | zero => rfl
    | succ k ih =>
      rw [List.replicate_succ, List.mapM_cons, ih]
      rfl
  rw [List.leftpad, List.mapM_append, hzeros, h]
  rfl

theorem Numeral.mapM_digit?_leftpad_toDigits (width n : Nat) :
    ∃ ds, ((Nat.toDigits 16 n).leftpad width '0').mapM (digit? 16) = some ds ∧
      total 16 ds = n := by
  obtain ⟨ds, hds, htotal⟩ := mapM_digit?_toDigits n
  obtain ⟨k, hk⟩ := mapM_digit?_leftpad width hds
  exact ⟨_, hk, by rw [total_replicate_zero_append, htotal]⟩

theorem Text.leftpad_toDigits_ne_nil (width n : Nat) :
    (Nat.toDigits 16 n).leftpad width '0' ≠ [] := by
  simp [List.leftpad, Nat.toDigits_ne_nil]

theorem Numeral.value?_leftpad_toDigits {n : Nat} (width : Nat) (h : n < UInt32.size) :
    value? ⟨16, (Nat.toDigits 16 n).leftpad width '0'⟩ = some n := by
  obtain ⟨ds, hds, htotal⟩ := mapM_digit?_leftpad_toDigits width n
  have hne := Text.leftpad_toDigits_ne_nil width n
  rw [value?, unsigned_of_plain (Text.plain_leftpad_toDigits width n)]
  split
  · contradiction
  · simp only [hds, htotal, if_pos h]

namespace Text

def ofHex? : Text → Option Nat
  | '0' :: 'x' :: digits =>
    if digits = [] then none else (digits.mapM (Numeral.digit? 16)).map (Numeral.total 16)
  | _ => none

theorem ofHex?_hex (width n : Nat) : ofHex? (hex width n) = some n := by
  obtain ⟨ds, hds, htotal⟩ := Numeral.mapM_digit?_leftpad_toDigits width n
  rw [hex, ofHex?, if_neg (leftpad_toDigits_ne_nil width n), hds, Option.map_some, htotal]

theorem length_hex (width n : Nat) :
    (hex width n).length = 2 + max width (Nat.toDigits 16 n).length := by
  rw [hex, List.length_cons, List.length_cons, List.length_leftpad]
  omega

theorem length_hexByte (b : UInt8) : (hexByte b).length = 4 := by
  have hdigits : (Nat.toDigits 16 b.toNat).length ≤ 2 :=
    (Nat.length_toDigits_le_iff (by decide) (by decide)).mpr b.toNat_lt
  rw [hexByte, length_hex]
  omega

end Text

theorem Token.numeral?_hexByte (b : UInt8) : numeral? (Text.hexByte b) = some (.ok b) := by
  have hof : Numeral.ofToken? (Text.hexByte b) =
      some ⟨16, (Nat.toDigits 16 b.toNat).leftpad 2 '0'⟩ := by
    rw [Numeral.ofToken?, Text.hexByte, (Text.plain_hex 2 b.toNat).lower_eq]
    rfl
  have hlt := b.toNat_lt
  have hsize : b.toNat < UInt32.size := Nat.lt_trans hlt (by decide)
  rw [numeral?, hof, Option.map_some, Numeral.byte, Numeral.value?_leftpad_toDigits 2 hsize]
  simp [hlt]

end Tribyte
