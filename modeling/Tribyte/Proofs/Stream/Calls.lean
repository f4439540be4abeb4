import Tribyte.Stream.Cursor

/-!
# Calls on a cursor

Of the calls on a cursor the first ones read the whole instructions of the stream in order, one
each, the next one reports what is left over, and all others yield nothing. The offset is a multiple
of three inside the stream for as long as there is one, so no call reads past the end.
-/

namespace Tribyte.Cursor

def after : Nat → Cursor → Cursor
  | 0, c => c
  | n + 1, c => after n c.next.2

def ending (bytes : List UInt8) : Option (Except Error Instruction) :=
  if 0 < bytes.length % 3 then
    some (.error (.truncated (bytes.length - bytes.length % 3) (bytes.length % 3)))
  else none

def position (bytes : List UInt8) (k : Nat) : Option Nat :=
  if k ≤ bytes.length / 3 then some (3 * k) else none

/-- What the call with the number `k`, counted from zero, yields on the cursor of a stream. -/
def answer (l : Layout) (bytes : List UInt8) (k : Nat) : Option (Except Error Instruction) :=
  if k < bytes.length / 3 then some (l.decode ((bytes.drop (3 * k)).take 3))
  else if k = bytes.length / 3 then ending bytes
  else none

variable {l : Layout} {bytes : List UInt8} {k : Nat}

theorem exists_drop_eq_cons (h : k < bytes.length / 3) :
    ∃ a b c rest, bytes.drop (3 * k) = a :: b :: c :: rest := by
  have hlength := List.length_drop (l := bytes) (i := 3 * k)
  match hdrop : bytes.drop (3 * k) with
  | [] | [_] | [_, _] =>
    rw [hdrop] at hlength
    simp only [List.length_cons, List.length_nil] at hlength
    omega
  | a :: b :: c :: rest => exact ⟨a, b, c, rest, rfl⟩

theorem exists_decode_eq_ok (l : Layout) (h : k < bytes.length / 3) :
    ∃ i, l.decode ((bytes.drop (3 * k)).take 3) = .ok i := by
  obtain ⟨a, b, c, rest, hdrop⟩ := exists_drop_eq_cons h
  rw [hdrop]
  exact ⟨_, rfl⟩

theorem next_position_of_lt (h : k < bytes.length / 3) :
    next ⟨l, bytes, some (3 * k)⟩ =
      (some (l.decode ((bytes.drop (3 * k)).take 3)), ⟨l, bytes, some (3 * (k + 1))⟩) := by
  obtain ⟨a, b, c, rest, hdrop⟩ := exists_drop_eq_cons h
  rw [next_of_cons hdrop, hdrop]
  rfl

theorem next_position_end :
    next ⟨l, bytes, some (3 * (bytes.length / 3))⟩ = (ending bytes, ⟨l, bytes, none⟩) := by
  have hwhole : 3 * (bytes.length / 3) = bytes.length - bytes.length % 3 := by omega
  unfold ending
  by_cases hrest : 0 < bytes.length % 3
  · have hlt : 3 * (bytes.length / 3) < bytes.length := by omega
    have hshort : (bytes.drop (3 * (bytes.length / 3))).length < 3 := by
      rw [List.length_drop]
      omega
    have hremaining : bytes.length - 3 * (bytes.length / 3) = bytes.length % 3 := by omega
    rw [next_of_length_lt hlt hshort, if_pos hrest, hremaining, hwhole]
  · rw [next_of_length_le (by omega), if_neg hrest]

theorem next_position (l : Layout) (bytes : List UInt8) (k : Nat) :
    next ⟨l, bytes, position bytes k⟩ =
      (answer l bytes k, ⟨l, bytes, position bytes (k + 1)⟩) := by
  unfold position answer
  -- The call reads a whole instruction, comes to the end, or comes after it.
  rcases Nat.lt_trichotomy k (bytes.length / 3) with hlt | rfl | hgt
  · have hnext : k + 1 ≤ bytes.length / 3 := hlt
    rw [if_pos (Nat.le_of_lt hlt), if_pos hlt, if_pos hnext, next_position_of_lt hlt]
  · rw [if_pos (Nat.le_refl _), if_neg (Nat.lt_irrefl _), if_pos rfl,
      if_neg (Nat.not_succ_le_self _), next_position_end]
  · rw [if_neg (Nat.not_le.mpr hgt), if_neg (Nat.not_lt.mpr (Nat.le_of_lt hgt)),
      if_neg (Nat.ne_of_gt hgt), if_neg (by omega), next_of_none]

theorem take_position (l : Layout) (bytes : List UInt8) (k calls : Nat) :
    take calls ⟨l, bytes, position bytes k⟩ = (List.range' k calls).map (answer l bytes) := by
  induction calls generalizing k with
  | zero => rfl
  | succ calls ih => rw [take, next_position, ih, List.range'_succ, List.map_cons]

theorem after_position (l : Layout) (bytes : List UInt8) (k calls : Nat) :
    after calls ⟨l, bytes, position bytes k⟩ = ⟨l, bytes, position bytes (k + calls)⟩ := by
  induction calls generalizing k with
  | zero => rfl
  | succ calls ih => rw [after, next_position, ih, Nat.add_assoc, Nat.add_comm 1]

theorem start_eq (l : Layout) (bytes : List UInt8) :
    { layout := l, bytes := bytes : Cursor } = ⟨l, bytes, position bytes 0⟩ := by
  rw [position, if_pos (Nat.zero_le _)]

theorem take_start (l : Layout) (bytes : List UInt8) (calls : Nat) :
    take calls { layout := l, bytes := bytes } = (List.range' 0 calls).map (answer l bytes) := by
  rw [start_eq, take_position]

theorem after_start (l : Layout) (bytes : List UInt8) (calls : Nat) :
    after calls { layout := l, bytes := bytes } = ⟨l, bytes, position bytes calls⟩ := by
  rw [start_eq, after_position, Nat.zero_add]

theorem getElem?_take_start {calls i : Nat} (h : i < calls) :
    (take calls { layout := l, bytes := bytes })[i]? = some (answer l bytes i) := by
  rw [take_start, List.getElem?_map, List.getElem?_range' h, Nat.zero_add, Nat.one_mul,
    Option.map_some]

/-- However many calls there are, the first ones yield the instructions of the stream in order, the
next one what is wrong with its end, if there is anything, and all later ones nothing. After each
of them the offset is gone, or it is a multiple of three and not past the end. -/
theorem take_and_after_start (l : Layout) (bytes : List UInt8) (calls : Nat) :
    let start : Cursor := { layout := l, bytes := bytes }
    let n := bytes.length
    (take calls start).length = calls ∧
    (∀ i < calls,
      (i < n / 3 → ∃ x, l.decode ((bytes.drop (3 * i)).take 3) = .ok x ∧
        (take calls start)[i]? = some (some (.ok x))) ∧
      (i = n / 3 → (take calls start)[i]? =
        some (if 0 < n % 3 then some (.error (.truncated (n - n % 3) (n % 3))) else none)) ∧
      (n / 3 < i → (take calls start)[i]? = some none)) ∧
    (after calls start).layout = l ∧ (after calls start).bytes = bytes ∧
    (after calls start).offset = (if calls ≤ n / 3 then some (3 * calls) else none) ∧
    ∀ offset ∈ (after calls start).offset, 3 ∣ offset ∧ offset ≤ n := by
  intro start n
  have hafter : after calls start = ⟨l, bytes, position bytes calls⟩ :=
    after_start l bytes calls
  refine ⟨?_, fun i hi => ?_, ?_⟩
  · exact (congrArg List.length (take_start l bytes calls)).trans (by simp)
  · rw [getElem?_take_start hi]
    refine ⟨fun hlt => ?_, fun hend => ?_, fun hgt => ?_⟩
    · obtain ⟨x, hx⟩ := exists_decode_eq_ok l hlt
      exact ⟨x, hx, by rw [answer, if_pos hlt, hx]⟩
    · rw [answer, if_neg (Nat.not_lt.mpr (Nat.le_of_eq hend.symm)), if_pos hend, ending]
    · rw [answer, if_neg (Nat.not_lt.mpr (Nat.le_of_lt hgt)), if_neg (Nat.ne_of_gt hgt)]
  · rw [hafter]
    refine ⟨rfl, rfl, rfl, fun offset hoffset => ?_⟩
    obtain ⟨hcalls, hoffset⟩ := Option.ite_none_right_eq_some.mp hoffset
    cases hoffset
    exact ⟨Nat.dvd_mul_right 3 calls, by omega⟩

end Tribyte.Cursor
