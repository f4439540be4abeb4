import Mathlib.Data.List.Basic
import Mathlib.Data.List.Perm.Basic
import Tribyte.Assembly.Token
import Tribyte.Proofs.Constants.Names

/-!
# Tables of flags

A byte is determined by the bits that it has. The bitwise or of some bytes has the bits that any one
of them has, so neither their order nor how often each of them occurs makes a difference.

In a table of flags every value is a bit of its own and every name a name of its own. There the
first entry that fits is the only one: names and values are looked up both ways alike, and a mask is
read as the names of those of its bits that the table knows.
-/

namespace Tribyte.Mask

def Has (mask : UInt8) (k : Nat) : Prop := mask.toBitVec.getLsbD k = true

theorem eq_of_has_iff {v w : UInt8} (h : ∀ k, Has v k ↔ Has w k) : v = w := by
  rw [← UInt8.toBitVec_inj]
  apply BitVec.eq_of_getLsbD_eq
  intro k _
  exact Bool.eq_iff_iff.mpr (h k)

theorem not_has_zero (k : Nat) : ¬ Has 0 k := by
  simp [Has]

theorem has_or {v w : UInt8} {k : Nat} : Has (v ||| w) k ↔ Has v k ∨ Has w k := by
  rw [Has, UInt8.toBitVec_or, BitVec.getLsbD_or, Bool.or_eq_true]
  rfl

theorem has_and {v w : UInt8} {k : Nat} : Has (v &&& w) k ↔ Has v k ∧ Has w k := by
  rw [Has, UInt8.toBitVec_and, BitVec.getLsbD_and, Bool.and_eq_true]
  rfl

theorem has_foldr_or {values : List UInt8} {k : Nat} :
    Has (values.foldr (· ||| ·) 0) k ↔ ∃ v ∈ values, Has v k := by
  induction values with
  | nil => simp [not_has_zero]
  | cons v values ih => simp [has_or, ih]

def bit (k : Nat) : UInt8 := ⟨BitVec.twoPow 8 k⟩

theorem has_bit {k j : Nat} (hk : k < 8) : Has (bit k) j ↔ j = k := by
  simp [Has, bit, BitVec.getLsbD_twoPow, hk, eq_comm]

theorem bit_injective {k j : Nat} (hk : k < 8) (h : bit k = bit j) (hj : j < 8) : k = j := by
  have hself : Has (bit j) k := h ▸ (has_bit hk).mpr rfl
  exact (has_bit hj).mp hself

theorem and_bit_eq_iff {mask : UInt8} {k : Nat} (hk : k < 8) :
    mask &&& bit k = bit k ↔ Has mask k := by
  constructor
  · intro h
    have hboth : Has (mask &&& bit k) k := by rw [h, has_bit hk]
    exact (has_and.mp hboth).1
  · intro h
    apply eq_of_has_iff
    intro j
    rw [has_and, has_bit hk]
    constructor
    · exact And.right
    · rintro rfl
      exact ⟨h, rfl⟩

theorem bit_ne_zero {k : Nat} (hk : k < 8) : bit k ≠ 0 := by
  intro h
  have hself : Has (bit k) k := (has_bit hk).mpr rfl
  exact not_has_zero k (h ▸ hself)

end Tribyte.Mask

namespace Tribyte.Table

/-- Names differ in more than the case of ASCII letters, and values are different single bits. -/
structure Flags (t : Table) : Prop where
  names : t.Unambiguous
  values : (t.entries.map Prod.snd).Nodup
  bits : ∀ entry ∈ t.entries, ∃ k < 8, entry.2 = Mask.bit k

def held (t : Table) (mask : UInt8) : List (String × UInt8) :=
  t.entries.filter fun (_, v) => v != 0 && mask &&& v == v

theorem flagsOf_eq (t : Table) (mask : UInt8) : t.flagsOf mask = (t.held mask).map Prod.fst := rfl

variable {t : Table} {name : String} {value mask : UInt8}

namespace Flags

theorem nodup_names (h : t.Flags) : (t.entries.map Prod.fst).Nodup := by
  have hlower : ((t.entries.map Prod.fst).map fun name => Text.lower name.toList).Nodup := by
    rw [List.map_map]
    exact h.names
  exact hlower.of_map

theorem value_unique (h : t.Flags) {other : UInt8} (hvalue : (name, value) ∈ t.entries)
    (hother : (name, other) ∈ t.entries) : value = other := by
  have hsame := List.inj_on_of_nodup_map h.nodup_names hvalue hother rfl
  exact congrArg Prod.snd hsame

theorem nameOf?_eq_some_iff (h : t.Flags) :
    t.nameOf? value = some name ↔ (name, value) ∈ t.entries := by
  constructor
  · exact mem_of_nameOf?
  · intro hentry
    cases hname : t.nameOf? value with
    | none =>
      have hno := List.find?_eq_none.mp (Option.map_eq_none_iff.mp hname) _ hentry
      exact absurd BEq.rfl hno
    | some other =>
      have hsame := List.inj_on_of_nodup_map h.values (mem_of_nameOf? hname) hentry rfl
      exact congrArg some (congrArg Prod.fst hsame)

theorem get?_of_mem (h : t.Flags) (hentry : (name, value) ∈ t.entries) {written : Text}
    (hwritten : Text.sameLetters name.toList written = true) : t.get? written = some value :=
  (get?_eq_some_iff h.names).mpr ⟨_, hentry, Text.sameLetters_iff.mp hwritten, rfl⟩

theorem mem_held_iff (h : t.Flags) {entry : String × UInt8} :
    entry ∈ t.held mask ↔ entry ∈ t.entries ∧ ∃ k < 8, entry.2 = Mask.bit k ∧ Mask.Has mask k := by
  simp only [held, List.mem_filter, Bool.and_eq_true, bne_iff_ne, beq_iff_eq]
  refine and_congr_right fun hentry => ?_
  obtain ⟨k, hk, hbit⟩ := h.bits entry hentry
  rw [hbit, Mask.and_bit_eq_iff hk]
  constructor
  · intro hhas
    exact ⟨k, hk, rfl, hhas.2⟩
  · rintro ⟨j, hj, hsame, hhas⟩
    rw [Mask.bit_injective hk hsame hj]
    exact ⟨Mask.bit_ne_zero hj, hhas⟩

theorem mem_flagsOf_iff (h : t.Flags) :
    name ∈ t.flagsOf mask ↔ ∃ k < 8, (name, Mask.bit k) ∈ t.entries ∧ Mask.Has mask k := by
  rw [flagsOf_eq, List.mem_map]
  constructor
  · rintro ⟨⟨name, value⟩, hheld, rfl⟩
    obtain ⟨hentry, k, hk, rfl, hhas⟩ := h.mem_held_iff.mp hheld
    exact ⟨k, hk, hentry, hhas⟩
  · rintro ⟨k, hk, hentry, hhas⟩
    exact ⟨_, h.mem_held_iff.mpr ⟨hentry, k, hk, rfl, hhas⟩, rfl⟩

theorem flagsOf_sublist (t : Table) (mask : UInt8) :
    (t.flagsOf mask).Sublist (t.entries.map Prod.fst) :=
  List.filter_sublist.map Prod.fst

theorem nodup_flagsOf (h : t.Flags) (mask : UInt8) : (t.flagsOf mask).Nodup :=
  (flagsOf_sublist t mask).nodup h.nodup_names

theorem mem_flagsOf_and (h : t.Flags) {other : UInt8} :
    name ∈ t.flagsOf (mask &&& other) ↔ name ∈ t.flagsOf mask ∧ name ∈ t.flagsOf other := by
  simp only [h.mem_flagsOf_iff, Mask.has_and]
  constructor
  · rintro ⟨k, hk, hentry, hmask, hother⟩
    exact ⟨⟨k, hk, hentry, hmask⟩, k, hk, hentry, hother⟩
  · rintro ⟨⟨k, hk, hentry, hmask⟩, j, hj, hentry', hother⟩
    -- the name has one value, so both masks hold the same bit
    obtain rfl := Mask.bit_injective hk (h.value_unique hentry hentry') hj
    exact ⟨k, hk, hentry, hmask, hother⟩

theorem mem_flagsOf_or (h : t.Flags) {other : UInt8} :
    name ∈ t.flagsOf (mask ||| other) ↔ name ∈ t.flagsOf mask ∨ name ∈ t.flagsOf other := by
  simp only [h.mem_flagsOf_iff, Mask.has_or, and_or_left, exists_or]

theorem get?_of_held (h : t.Flags) (mask : UInt8) :
    List.Forall₂ (fun name value => t.get? name.toList = some value) (t.flagsOf mask)
      ((t.held mask).map Prod.snd) := by
  rw [flagsOf_eq, List.forall₂_map_left_iff, List.forall₂_map_right_iff, List.forall₂_same]
  intro entry hheld
  exact h.get?_of_mem (h.mem_held_iff.mp hheld).1 (Text.sameLetters_iff.mpr rfl)

theorem join_held (h : t.Flags) (mask : UInt8) :
    ((t.held mask).map Prod.snd).foldr (· ||| ·) 0 =
      mask &&& (t.entries.map Prod.snd).foldr (· ||| ·) 0 := by
  apply Mask.eq_of_has_iff
  intro k
  simp only [Mask.has_and, Mask.has_foldr_or, List.mem_map, exists_exists_and_eq_and,
    h.mem_held_iff]
  constructor
  · rintro ⟨entry, ⟨hentry, j, hj, hbit, hhas⟩, hk⟩
    obtain rfl : k = j := (Mask.has_bit hj).mp (hbit ▸ hk)
    exact ⟨hhas, entry, hentry, hk⟩
  · rintro ⟨hhas, entry, hentry, hk⟩
    obtain ⟨j, hj, hbit⟩ := h.bits entry hentry
    obtain rfl : k = j := (Mask.has_bit hj).mp (hbit ▸ hk)
    exact ⟨entry, ⟨hentry, k, hj, hbit, hhas⟩, hk⟩

theorem flagsOf_eq_singleton (h : t.Flags) (hentry : (name, mask) ∈ t.entries) :
    t.flagsOf mask = [name] := by
  obtain ⟨k, hk, hbit⟩ := h.bits _ hentry
  obtain rfl : mask = Mask.bit k := hbit
  rw [← List.perm_singleton,
    List.perm_ext_iff_of_nodup (h.nodup_flagsOf _) (List.nodup_singleton _)]
  intro other
  rw [h.mem_flagsOf_iff, List.mem_singleton]
  constructor
  · rintro ⟨j, hj, hother, hhas⟩
    obtain rfl := (Mask.has_bit hk).mp hhas
    exact congrArg Prod.fst (List.inj_on_of_nodup_map h.values hother hentry rfl)
  · rintro rfl
    exact ⟨k, hk, hentry, (Mask.has_bit hk).mpr rfl⟩

end Flags

theorem flags_of_mem_tables : ∀ t ∈ Constants.tables, t.Flags := by
  have hall : ∀ t ∈ Constants.tables, (t.entries.map fun entry => Text.lower entry.1.toList).Nodup ∧
      (t.entries.map Prod.snd).Nodup ∧ ∀ entry ∈ t.entries, ∃ k < 8, entry.2 = Mask.bit k := by
    decide
  intro t ht
  obtain ⟨hnames, hvalues, hbits⟩ := hall t ht
  exact ⟨hnames, hvalues, hbits⟩

/-- The four tables are tables of flags. In such a table a value has a name exactly if they make an
entry, and the name gives the value back in any case of its letters. A mask is read as different
names in the order of the table. Their values joined are the bits of the mask that some value has,
and both the and and the or of two masks are read as they should be, name by name. A mask that has
a name is read as that name alone. -/
theorem nameOf?_iff_and_flagsOf_join :
    (∀ t ∈ Constants.tables, t.Flags) ∧ ∀ t : Table, t.Flags → ∀ mask : UInt8,
      (∀ name, t.nameOf? mask = some name ↔ (name, mask) ∈ t.entries) ∧
      (∀ name written, (name, mask) ∈ t.entries → Text.sameLetters name.toList written = true →
        t.get? written = some mask) ∧
      (t.flagsOf mask).Nodup ∧ (t.flagsOf mask).Sublist (t.entries.map Prod.fst) ∧
      (∃ values,
        List.Forall₂ (fun name value => t.get? name.toList = some value) (t.flagsOf mask) values ∧
        values.foldr (· ||| ·) 0 = mask &&& (t.entries.map Prod.snd).foldr (· ||| ·) 0) ∧
      (∀ other name, name ∈ t.flagsOf (mask &&& other) ↔
        name ∈ t.flagsOf mask ∧ name ∈ t.flagsOf other) ∧
      (∀ other name, name ∈ t.flagsOf (mask ||| other) ↔
        name ∈ t.flagsOf mask ∨ name ∈ t.flagsOf other) ∧
      ∀ name, t.nameOf? mask = some name → t.flagsOf mask = [name] := by
  refine ⟨flags_of_mem_tables, fun t h mask => ⟨fun name => h.nameOf?_eq_some_iff,
    fun name written hentry => h.get?_of_mem hentry, h.nodup_flagsOf mask,
    Flags.flagsOf_sublist t mask, ⟨_, h.get?_of_held mask, h.join_held mask⟩,
    fun other name => h.mem_flagsOf_and, fun other name => h.mem_flagsOf_or, fun name hname => ?_⟩⟩
  exact h.flagsOf_eq_singleton (h.nameOf?_eq_some_iff.mp hname)

/-- No condition has the highest bit of the mask. -/
example : Constants.jumpCondition.flagsOf 0x38 = ["lt", "eq"] ∧
    Constants.jumpCondition.nameOf? 0x38 = none := by decide

end Tribyte.Table
