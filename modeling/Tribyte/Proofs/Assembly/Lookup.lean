import Mathlib.Data.List.Perm.Basic
import Tribyte.Proofs.Constants.Names

/-!
# The order of look-up

A token is a numeral, or a name of one table, or unknown: no two readers have an answer for the same
token. So it does not matter which reader is asked first, and opcodes and operands are read the same
with the readers in any order.
-/

namespace Tribyte.Token

section FirstAnswer

variable {α β : Type} {f : α → Option β} {xs ys : List α}

theorem findSome?_eq_some_iff_of_pairwise (h : xs.Pairwise fun x y => f x = none ∨ f y = none)
    {b : β} : xs.findSome? f = some b ↔ ∃ x ∈ xs, f x = some b := by
  induction xs with
  | nil => simp
  | cons x xs ih =>
    obtain ⟨hhead, htail⟩ := List.pairwise_cons.mp h
    rw [List.exists_mem_cons_iff, ← ih htail, List.findSome?_cons]
    cases hx : f x with
    | none => simp
    | some c =>
      have hnone : xs.findSome? f = none := by
        rw [List.findSome?_eq_none_iff]
        intro y hy
        have hy' := hhead y hy
        rw [hx] at hy'
        exact hy'.resolve_left (Option.some_ne_none c)
      simp [hnone]

theorem findSome?_eq_of_perm (h : xs.Pairwise fun x y => f x = none ∨ f y = none)
    (hperm : xs.Perm ys) : xs.findSome? f = ys.findSome? f := by
  have hys := (hperm.pairwise_iff Or.symm).mp h
  apply Option.ext
  intro b
  rw [findSome?_eq_some_iff_of_pairwise h, findSome?_eq_some_iff_of_pairwise hys]
  exact exists_congr fun x => and_congr_left fun _ => hperm.mem_iff

end FirstAnswer

/-- A reader has an answer for the tokens of its own kind, and none for others. -/
abbrev Reader := Text → Option (Except Fault UInt8)

def nameReader (t : Table) : Reader := fun token => (t.get? token).map .ok

def readers (tables : List Table) : List Reader := numeral? :: tables.map nameReader

section Order

variable (order : List Reader)

def firstAnswer (unknown : Fault) (token : Text) : Except Fault UInt8 :=
  (order.findSome? (· token)).getD (.error unknown)

def opcodeBy (token : Text) : Except Fault UInt8 := firstAnswer order (.unknownOpcode token) token

def termBy (whole : Text) : Text → Except Fault UInt8
  | [] => .error (.emptyTerm whole)
  | part => firstAnswer order (.unknownOperand part) part

def operandBy (token : Text) : Except Fault UInt8 :=
  ((terms token).mapM (termBy order token)).map join

end Order

def Exclusive (order : List Reader) : Prop :=
  ∀ token, order.Pairwise fun read other => read token = none ∨ other token = none

theorem Exclusive.pairwise_isSome {order : List Reader} (h : Exclusive order) (token : Text) :
    (order.map fun read => (read token).isSome).Pairwise
      fun one other : Bool => ¬ (one ∧ other) := by
  rw [List.pairwise_map]
  refine (h token).imp fun hone => ?_
  rcases hone with hone | hone <;> simp [hone]

theorem Exclusive.firstAnswer_eq {order other : List Reader} (h : Exclusive order)
    (hperm : order.Perm other) : firstAnswer order = firstAnswer other := by
  funext unknown token
  rw [firstAnswer, firstAnswer, findSome?_eq_of_perm (h token) hperm]

theorem exclusive_readers {tables : List Table} (hnumeral : ∀ t ∈ tables, t.NoNumeral)
    (hnames : ∀ token, tables.Pairwise fun s t => s.get? token = none ∨ t.get? token = none) :
    Exclusive (readers tables) := by
  intro token
  rw [readers, List.pairwise_cons, List.pairwise_map]
  constructor
  · intro read hread
    obtain ⟨t, ht, rfl⟩ := List.mem_map.mp hread
    rw [nameReader, Option.map_eq_none_iff]
    cases hget : t.get? token with
    | none => exact .inr rfl
    | some value =>
      exact .inl (numeral?_eq_none_of_names (hnumeral t ht) (Table.names_of_get? hget))
  · simpa only [nameReader, Option.map_eq_none_iff] using hnames token

theorem pairwise_operandTables (token : Text) :
    Constants.operandTables.Pairwise fun s t => s.get? token = none ∨ t.get? token = none := by
  have hnodup := Constants.operandNames_unambiguous
  rw [Table.Unambiguous, Constants.operandNames, List.map_flatMap, List.nodup_flatMap] at hnodup
  refine hnodup.2.imp fun {s t} hdisjoint => ?_
  cases hs : s.get? token with
  | none => exact .inl rfl
  | some value =>
    cases ht : t.get? token with
    | none => exact .inr rfl
    | some other =>
      obtain ⟨entry, hentry, hname, -⟩ := Table.names_of_get? hs
      obtain ⟨entry', hentry', hname', -⟩ := Table.names_of_get? ht
      have hmem := List.mem_map_of_mem (f := fun e => Text.lower e.1.toList) hentry
      have hmem' := List.mem_map_of_mem (f := fun e => Text.lower e.1.toList) hentry'
      exact absurd ((hname.trans hname'.symm) ▸ hmem') (hdisjoint hmem)

theorem exclusive_operand : Exclusive (readers Constants.operandTables) := by
  apply exclusive_readers
  · intro t ht entry hentry
    exact Constants.operandNames_noNumeral entry (List.mem_flatMap.mpr ⟨t, ht, hentry⟩)
  · exact pairwise_operandTables

theorem exclusive_opcode : Exclusive (readers [Constants.opcode]) := by
  apply exclusive_readers
  · intro t ht
    rw [List.mem_singleton.mp ht]
    exact Constants.opcode_noNumeral
  · intro token
    exact List.pairwise_singleton _ _

theorem firstAnswer_readers (tables : List Table) (unknown : Fault) (token : Text) :
    firstAnswer (readers tables) unknown token =
      ((numeral? token).or ((tables.findSome? (·.get? token)).map .ok)).getD (.error unknown) := by
  rw [firstAnswer, readers, List.findSome?_cons, List.findSome?_map, List.map_findSome?]
  cases numeral? token <;> rfl

theorem opcodeBy_eq_opcode {order : List Reader} (h : order.Perm (readers [Constants.opcode])) :
    opcodeBy order = opcode := by
  funext token
  rw [opcodeBy, ← exclusive_opcode.firstAnswer_eq h.symm, firstAnswer_readers,
    List.findSome?_singleton, opcode]
  cases numeral? token with
  | some result => rfl
  | none => cases Constants.opcode.get? token <;> rfl

theorem termBy_eq_term {order : List Reader} (h : order.Perm (readers Constants.operandTables))
    (whole part : Text) : termBy order whole part = term whole part := by
  cases part with
  | nil => rfl
  | cons c part =>
    have hsymbol : Constants.operandTables.findSome? (·.get? (c :: part)) = symbol? (c :: part) :=
      rfl
    simp only [termBy, term]
    rw [← exclusive_operand.firstAnswer_eq h.symm, firstAnswer_readers, hsymbol]
    cases numeral? (c :: part) with
    | some result => rfl
    | none => cases symbol? (c :: part) <;> rfl

theorem operandBy_eq_operand {order : List Reader}
    (h : order.Perm (readers Constants.operandTables)) : operandBy order = operand := by
  funext token
  rw [operandBy, funext (termBy_eq_term h token), operand]

/-- A token is a numeral or a name of one of the operand tables, and never two of these at once. A
numeral is no mnemonic either. So an opcode and an operand are read the same in whatever order the
numerals and the tables are tried. -/
theorem operandBy_and_opcodeBy_eq (token : Text) :
    [(numeral? token).isSome, (Constants.register.get? token).isSome,
      (Constants.systemCall.get? token).isSome,
      (Constants.jumpCondition.get? token).isSome].Pairwise
        (fun one other : Bool => ¬ (one ∧ other)) ∧
    ((numeral? token).isSome → Constants.opcode.get? token = none) ∧
    (∀ order : List Reader, order.Perm (readers Constants.operandTables) →
      operandBy order token = operand token) ∧
    ∀ order : List Reader, order.Perm (readers [Constants.opcode]) →
      opcodeBy order token = opcode token := by
  refine ⟨?_, fun hnumeral => ?_, fun order h => congrFun (operandBy_eq_operand h) token,
    fun order h => congrFun (opcodeBy_eq_opcode h) token⟩
  · simpa only [readers, nameReader, Constants.operandTables, List.map_cons, List.map_nil,
      Option.isSome_map] using exclusive_operand.pairwise_isSome token
  · have hpair := List.pairwise_cons.mp (exclusive_opcode token)
    have hone := hpair.1 _ (List.mem_singleton.mpr rfl)
    have hnone : nameReader Constants.opcode token = none :=
      hone.resolve_left (Option.isSome_iff_ne_none.mp hnumeral)
    exact Option.map_eq_none_iff.mp hnone

end Tribyte.Token
