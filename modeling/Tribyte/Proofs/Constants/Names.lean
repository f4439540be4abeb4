import Mathlib.Data.List.Nodup
import Tribyte.Assembly.Token

/-!
# Names of constants

Look-up finds the first entry that fits. Within a table no two names agree up to the case of ASCII
letters, and the names of the three operand tables taken together do not either, so that the order
of entries and of tables never decides. No spelling of a name is a numeral.
-/

namespace Tribyte

/-- An entry of the table has this value, and this name up to the case of ASCII letters. -/
def Table.Names (t : Table) (name : Text) (value : UInt8) : Prop :=
  ∃ entry ∈ t.entries, Text.lower entry.1.toList = Text.lower name ∧ entry.2 = value

def Table.Unambiguous (t : Table) : Prop :=
  (t.entries.map fun entry => Text.lower entry.1.toList).Nodup

def Table.NoNumeral (t : Table) : Prop :=
  ∀ entry ∈ t.entries, Numeral.ofToken? entry.1.toList = none

theorem Table.names_of_get? {t : Table} {name : Text} {value : UInt8}
    (h : t.get? name = some value) : t.Names name value := by
  obtain ⟨entry, hfind, rfl⟩ := Option.map_eq_some_iff.mp h
  have hsame : Text.sameLetters entry.1.toList name = true := by simpa using List.find?_some hfind
  exact ⟨entry, List.mem_of_find?_eq_some hfind, Text.sameLetters_iff.mp hsame, rfl⟩

theorem Table.get?_eq_some_iff {t : Table} (h : t.Unambiguous) {name : Text} {value : UInt8} :
    t.get? name = some value ↔ t.Names name value := by
  constructor
  · exact names_of_get?
  · intro hnames
    obtain ⟨entry, hentry, hname, rfl⟩ := hnames
    cases hget : t.get? name with
    | none =>
      have hno := List.find?_eq_none.mp (Option.map_eq_none_iff.mp hget) entry hentry
      exact absurd (Text.sameLetters_iff.mpr hname) hno
    | some found =>
      obtain ⟨other, hother, hname', rfl⟩ := names_of_get? hget
      rw [List.inj_on_of_nodup_map h hother hentry (hname'.trans hname.symm)]

theorem Table.mem_of_nameOf? {t : Table} {name : String} {value : UInt8}
    (h : t.nameOf? value = some name) : (name, value) ∈ t.entries := by
  simp only [nameOf?, Option.map_eq_some_iff] at h
  obtain ⟨entry, hfind, rfl⟩ := h
  have hvalue : entry.2 = value := by simpa using List.find?_some hfind
  rw [← hvalue]
  exact List.mem_of_find?_eq_some hfind

namespace Constants

def operandNames : Table := ⟨"operand", operandTables.flatMap (·.entries)⟩

theorem opcode_unambiguous : opcode.Unambiguous := by
  unfold Table.Unambiguous
  decide

theorem operandNames_unambiguous : operandNames.Unambiguous := by
  unfold Table.Unambiguous
  decide

theorem opcode_noNumeral : opcode.NoNumeral := by
  unfold Table.NoNumeral
  decide

theorem operandNames_noNumeral : operandNames.NoNumeral := by
  unfold Table.NoNumeral
  decide

theorem operandNames_names_iff {name : Text} {value : UInt8} :
    operandNames.Names name value ↔
      register.Names name value ∨ systemCall.Names name value ∨ jumpCondition.Names name value := by
  simp only [Table.Names, operandNames, operandTables, List.flatMap_cons, List.flatMap_nil,
    List.append_nil, List.mem_append, or_and_right, exists_or]

end Constants

namespace Token

theorem symbol?_eq_get? (name : Text) : symbol? name = Constants.operandNames.get? name := by
  simp only [symbol?, Constants.operandNames, Table.get?, List.find?_flatMap, List.map_findSome?]
  rfl

theorem numeral?_eq_none_of_names {t : Table} (ht : t.NoNumeral) {token : Text} {value : UInt8}
    (h : t.Names token value) : numeral? token = none := by
  obtain ⟨entry, hmem, hname, -⟩ := h
  have htoken : Numeral.ofToken? token = Numeral.ofToken? entry.1.toList := by
    unfold Numeral.ofToken?
    rw [hname]
  rw [numeral?, htoken, ht entry hmem]
  rfl

end Token

end Tribyte
