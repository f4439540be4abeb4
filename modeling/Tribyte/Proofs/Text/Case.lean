import Tribyte.Text

/-!
# Letters in either case

Lowering a text changes nothing but the case of ASCII letters. What treats both cases of each letter
alike does not see it, so a text is cut at the same places before and after. Digits and lower-case
letters, which are all that a printed opcode or number is made of, are plain: none of them has
another lower-case form, is white space or is a mark. In a wording, numbers and lower-case words
stay as they are.
-/

namespace Tribyte.Text

def IsPlain (c : Char) : Prop := c.isDigit = true ∨ c.isLower = true

instance (c : Char) : Decidable (IsPlain c) := inferInstanceAs (Decidable (_ ∨ _))

def Plain (t : Text) : Prop := ∀ c ∈ t, IsPlain c

instance (t : Text) : Decidable (Plain t) := List.decidableBAll IsPlain t

theorem IsPlain.toNat_range {c : Char} (h : IsPlain c) :
    (48 ≤ c.toNat ∧ c.toNat ≤ 57) ∨ (97 ≤ c.toNat ∧ c.toNat ≤ 122) := by
  rcases h with h | h
  · have hbounds : ('0'.val ≤ c.val && c.val ≤ '9'.val) = true := h
    exact .inl (by simpa [UInt32.le_iff_toNat_le] using hbounds)
  · have hbounds : ('a'.val ≤ c.val && c.val ≤ 'z'.val) = true := h
    exact .inr (by simpa [UInt32.le_iff_toNat_le] using hbounds)

theorem IsPlain.toLower_eq {c : Char} (h : IsPlain c) : c.toLower = c := by
  have hrange := h.toNat_range
  have hupper : ¬ ('A'.val ≤ c.val ∧ c.val ≤ 'Z'.val) := by
    simp only [UInt32.le_iff_toNat_le, Char.toNat_val]
    have hlow : 'A'.toNat = 65 := rfl
    have hhigh : 'Z'.toNat = 90 := rfl
    omega
  exact dif_neg hupper

theorem IsPlain.isBlank_eq_false {c : Char} (h : IsPlain c) : isBlank c = false := by
  have hrange := h.toNat_range
  simp [isBlank, blankRuns]
  omega

theorem Plain.lower_eq {t : Text} (h : Plain t) : lower t = t := by
  rw [lower, List.map_congr_left fun c hc => (h c hc).toLower_eq, List.map_id']

theorem Plain.not_mem {t : Text} {c : Char} (h : Plain t) (hc : ¬ IsPlain c) : c ∉ t :=
  fun hmem => hc (h c hmem)

theorem plain_cons {c : Char} {t : Text} : Plain (c :: t) ↔ IsPlain c ∧ Plain t :=
  List.forall_mem_cons

theorem plain_append {s t : Text} : Plain (s ++ t) ↔ Plain s ∧ Plain t :=
  List.forall_mem_append

theorem toLower_cases (c : Char) :
    c.toLower = c ∨ ∃ n < 26, c = Char.ofNat (65 + n) ∧ c.toLower = Char.ofNat (97 + n) := by
  by_cases hupper : 'A'.val ≤ c.val ∧ c.val ≤ 'Z'.val
  · have hall : ∀ n < 26, (Char.ofNat (65 + n)).toLower = Char.ofNat (97 + n) := by decide
    have hrange : 65 ≤ c.toNat ∧ c.toNat ≤ 90 := by
      simpa [UInt32.le_iff_toNat_le] using hupper
    have hc : Char.ofNat (65 + (c.toNat - 65)) = c := by
      rw [Nat.add_sub_cancel' hrange.1, Char.ofNat_toNat]
    have hlower := hall (c.toNat - 65) (by omega)
    rw [hc] at hlower
    exact .inr ⟨c.toNat - 65, by omega, hc.symm, hlower⟩
  · exact .inl (dif_neg hupper)

theorem apply_toLower {α : Type} {f : Char → α}
    (h : ∀ n < 26, f (Char.ofNat (97 + n)) = f (Char.ofNat (65 + n))) (c : Char) :
    f c.toLower = f c := by
  rcases toLower_cases c with hsame | ⟨n, hn, hc, hlower⟩
  · rw [hsame]
  · rw [hlower, h n hn, ← hc]

theorem lower_lower (t : Text) : lower (lower t) = lower t := by
  have hlower : ∀ c : Char, c.toLower.toLower = c.toLower := apply_toLower (by decide)
  rw [lower, lower, List.map_map]
  exact List.map_congr_left fun c _ => hlower c

section Cuts

variable {p : Char → Bool}

theorem takeWhile_lower (h : ∀ n < 26, p (Char.ofNat (97 + n)) = p (Char.ofNat (65 + n)))
    (t : Text) : (lower t).takeWhile p = lower (t.takeWhile p) := by
  have hp : p ∘ Char.toLower = p := funext (apply_toLower h)
  rw [lower, List.takeWhile_map, hp]
  rfl

theorem splitOnP_lower (h : ∀ n < 26, p (Char.ofNat (97 + n)) = p (Char.ofNat (65 + n)))
    (t : Text) : (lower t).splitOnP p = (t.splitOnP p).map lower := by
  induction t with
  | nil => rfl
  | cons c t ih =>
    rw [lower, List.map_cons, ← lower, List.splitOnP_cons_eq_if_modifyHead,
      List.splitOnP_cons_eq_if_modifyHead, apply_toLower h, ih]
    by_cases hc : p c = true
    · rw [if_pos hc, if_pos hc]
      rfl
    · rw [if_neg hc, if_neg hc]
      cases t.splitOnP p <;> rfl

theorem splitOn_lower {mark : Char}
    (h : ∀ n < 26, (Char.ofNat (97 + n) == mark) = (Char.ofNat (65 + n) == mark)) (t : Text) :
    (lower t).splitOn mark = (t.splitOn mark).map lower :=
  splitOnP_lower h t

end Cuts

section Wording

theorem toList_toLower (s : String) : s.toLower.toList = lower s.toList := String.toList_map

theorem toLower_append (s t : String) : (s ++ t).toLower = s.toLower ++ t.toLower := by
  apply String.toList_injective
  simp only [toList_toLower, String.toList_append, lower, List.map_append]

theorem toLower_ofList (t : Text) : (String.ofList t).toLower = String.ofList (lower t) := by
  apply String.toList_injective
  simp only [toList_toLower, String.toList_ofList]

theorem toLower_eq_self {s : String} (h : lower s.toList = s.toList) : s.toLower = s := by
  have hlower := toLower_ofList s.toList
  rwa [h, String.ofList_toList] at hlower

theorem toLower_toString (n : Nat) : (toString n).toLower = toString n := by
  have hplain : Plain (Nat.toDigits 10 n) := fun c hc =>
    .inl (Nat.isDigit_of_mem_toDigits (by decide) (by decide) hc)
  have hdigits : toString n = String.ofList (Nat.toDigits 10 n) := rfl
  rw [hdigits, toLower_ofList, hplain.lower_eq]

theorem toLower_within {front back : String} (hfront : lower front.toList = front.toList)
    (hback : lower back.toList = back.toList) (s : String) :
    (front ++ s ++ back).toLower = front ++ s.toLower ++ back := by
  rw [toLower_append, toLower_append, toLower_eq_self hfront, toLower_eq_self hback]

end Wording

end Tribyte.Text
