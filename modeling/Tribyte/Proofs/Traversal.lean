import Mathlib.Data.List.Forall2

/-!
# Reading a list element by element

A traversal stops at the first element that cannot be read. It succeeds exactly when every element
can be read by itself, and then gives their values in order; otherwise its error is that of the
first element that fails.
-/

namespace Tribyte.Traversal

variable {α β ε : Type} {f : α → Except ε β}

theorem mapM_cons_of_ok {x : α} {y : β} (h : f x = .ok y) (xs : List α) :
    (x :: xs).mapM f = (xs.mapM f).map (y :: ·) := by
  rw [List.mapM_cons, h]
  rfl

theorem mapM_cons_of_error {x : α} {e : ε} (h : f x = .error e) (xs : List α) :
    (x :: xs).mapM f = .error e := by
  rw [List.mapM_cons, h]
  rfl

theorem map_eq_ok_iff {γ : Type} {g : β → γ} {r : Except ε β} {z : γ} :
    r.map g = .ok z ↔ ∃ y, r = .ok y ∧ g y = z := by
  cases r <;> simp [Except.map]

theorem map_eq_error_iff {γ : Type} {g : β → γ} {r : Except ε β} {e : ε} :
    r.map g = .error e ↔ r = .error e := by
  cases r <;> simp [Except.map]

theorem toOption_eq_some_iff {r : Except ε β} {y : β} : r.toOption = some y ↔ r = .ok y := by
  cases r <;> simp [Except.toOption]

theorem bind_eq_ok_iff {γ : Type} {r : Except ε β} {g : β → Except ε γ} {z : γ} :
    r >>= g = .ok z ↔ ∃ y, r = .ok y ∧ g y = .ok z := by
  cases r <;> simp [bind, Except.bind]

theorem mapError_eq_error_iff {ε' : Type} {g : ε → ε'} {r : Except ε β} {e : ε'} :
    r.mapError g = .error e ↔ ∃ cause, r = .error cause ∧ g cause = e := by
  cases r <;> simp [Except.mapError]

theorem mapError_map {ε' γ : Type} {g : ε → ε'} {h : β → γ} {r : Except ε β} :
    (r.mapError g).map h = (r.map h).mapError g := by
  cases r <;> rfl

theorem mapM_map_of_mapError {α' ε' : Type} {g : ε → ε'} {h : α → α'} {f' : α' → Except ε' β}
    (hf : ∀ x, f' (h x) = (f x).mapError g) (xs : List α) :
    (xs.map h).mapM f' = (xs.mapM f).mapError g := by
  induction xs with
  | nil => rfl
  | cons x xs ih =>
    rw [List.map_cons]
    cases hx : f x with
    | error e =>
      have hx' : f' (h x) = .error (g e) := by rw [hf, hx]; rfl
      rw [mapM_cons_of_error hx', mapM_cons_of_error hx]
      rfl
    | ok y =>
      have hx' : f' (h x) = .ok y := by rw [hf, hx]; rfl
      rw [mapM_cons_of_ok hx', mapM_cons_of_ok hx, ih, mapError_map]

theorem mapM_eq_ok_iff {xs : List α} {ys : List β} :
    xs.mapM f = .ok ys ↔ List.Forall₂ (fun x y => f x = .ok y) xs ys := by
  induction xs generalizing ys with
  | nil =>
    rw [List.forall₂_nil_left_iff]
    exact ⟨fun h => (Except.ok.inj h).symm, fun h => congrArg Except.ok h.symm⟩
  | cons x xs ih =>
    rw [List.forall₂_cons_left_iff]
    cases hx : f x with
    | error e => simp [mapM_cons_of_error hx]
    | ok y =>
      rw [mapM_cons_of_ok hx, map_eq_ok_iff]
      constructor
      · intro h
        obtain ⟨tail, htail, rfl⟩ := h
        exact ⟨y, tail, rfl, ih.mp htail, rfl⟩
      · intro h
        obtain ⟨z, tail, hz, htail, rfl⟩ := h
        cases hz
        exact ⟨tail, ih.mpr htail, rfl⟩

theorem mapM_eq_error_iff {xs : List α} {e : ε} :
    xs.mapM f = .error e ↔
      ∃ (i : Nat) (x : α), xs[i]? = some x ∧ f x = .error e ∧
        ∀ j < i, ∀ y, xs[j]? = some y → ∃ z, f y = .ok z := by
  induction xs with
  | nil => simp [pure, Except.pure]
  | cons x xs ih =>
    cases hx : f x with
    | error e' =>
      rw [mapM_cons_of_error hx]
      constructor
      · intro h
        cases h
        exact ⟨0, x, rfl, hx, fun j hj => absurd hj (Nat.not_lt_zero j)⟩
      · intro h
        obtain ⟨i, y, hy, he, hbefore⟩ := h
        cases i with
        | zero =>
          cases hy
          rw [hx] at he
          cases he
          rfl
        | succ i =>
          obtain ⟨z, hz⟩ := hbefore 0 (Nat.succ_pos i) x rfl
          rw [hx] at hz
          contradiction
    | ok y =>
      rw [mapM_cons_of_ok hx, map_eq_error_iff, ih]
      constructor
      · intro h
        obtain ⟨i, w, hw, he, hbefore⟩ := h
        refine ⟨i + 1, w, hw, he, fun j hj v hv => ?_⟩
        cases j with
        | zero =>
          cases hv
          exact ⟨y, hx⟩
        | succ j => exact hbefore j (by omega) v hv
      · intro h
        obtain ⟨i, w, hw, he, hbefore⟩ := h
        cases i with
        | zero =>
          cases hw
          rw [hx] at he
          contradiction
        | succ i => exact ⟨i, w, hw, he, fun j hj v hv => hbefore (j + 1) (by omega) v hv⟩

theorem mapM_eq_error_iff_append {xs : List α} {e : ε} :
    xs.mapM f = .error e ↔
      ∃ front x back, xs = front ++ x :: back ∧ (∀ y ∈ front, ∃ z, f y = .ok z) ∧
        f x = .error e := by
  rw [mapM_eq_error_iff]
  constructor
  · intro h
    obtain ⟨i, x, hx, he, hbefore⟩ := h
    obtain ⟨hi, rfl⟩ := List.getElem?_eq_some_iff.mp hx
    refine ⟨xs.take i, xs[i], xs.drop (i + 1), ?_, fun y hy => ?_, he⟩
    · rw [List.getElem_cons_drop, List.take_append_drop]
    · obtain ⟨j, hj, rfl⟩ := List.mem_take_iff_getElem.mp hy
      exact hbefore j (by omega) _ (List.getElem?_eq_getElem (by omega))
  · intro h
    obtain ⟨front, x, back, rfl, hfront, he⟩ := h
    refine ⟨front.length, x, by simp, he, fun j hj y hy => hfront y ?_⟩
    rw [List.getElem?_append_left hj] at hy
    exact List.mem_of_getElem? hy

section Pairs

variable {R : α → β → Prop}

theorem exists_forall₂_iff {xs : List α} :
    (∃ ys, List.Forall₂ R xs ys) ↔ ∀ x ∈ xs, ∃ y, R x y := by
  induction xs with
  | nil => simp
  | cons x xs ih =>
    rw [List.forall_mem_cons, ← ih]
    constructor
    · intro h
      obtain ⟨ys, h⟩ := h
      obtain ⟨y, tail, hxy, htail, -⟩ := List.forall₂_cons_left_iff.mp h
      exact ⟨⟨y, hxy⟩, tail, htail⟩
    · intro h
      obtain ⟨⟨y, hxy⟩, tail, htail⟩ := h
      exact ⟨y :: tail, .cons hxy htail⟩

theorem exists_mem_iff_of_forall₂ (hR : Relator.RightUnique R) {P : β → Prop} {xs : List α}
    {ys : List β} (h : List.Forall₂ R xs ys) :
    (∃ y ∈ ys, P y) ↔ ∃ x ∈ xs, ∃ y, R x y ∧ P y := by
  induction h with
  | nil => simp
  | @cons x y xs ys hxy _ ih =>
    have hhead : P y ↔ ∃ z, R x z ∧ P z := by
      constructor
      · exact fun hy => ⟨y, hxy, hy⟩
      · intro hz
        obtain ⟨z, hxz, hz⟩ := hz
        rwa [hR hxy hxz]
    rw [List.exists_mem_cons_iff, List.exists_mem_cons_iff, ih, hhead]

end Pairs

end Tribyte.Traversal
