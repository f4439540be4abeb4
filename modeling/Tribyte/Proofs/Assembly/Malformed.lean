import Tribyte.Proofs.Assembly.Literal
import Tribyte.Proofs.Assembly.Source

/-!
# Numbers that are refused

A token that starts with a decimal digit is never looked up as a name. If it is no literal it is a
malformed number, and so is its line, wherever the token stands in it; what is read first and cannot
be read is what is reported. There is one exception: a plus sign behind a base mark is passed over.
-/

namespace Tribyte

namespace Numeral

/-- A literal with a plus sign between its base mark and its digits. -/
def SignedLiteral (token : Text) (v : Nat) : Prop :=
  ∃ mark base digits, BaseMark mark base ∧ mark ≠ [] ∧ Denotes base digits v ∧
    token = mark ++ '+' :: digits

theorem SignedLiteral.plus_mem {token : Text} {v : Nat} (h : SignedLiteral token v) :
    '+' ∈ token := by
  obtain ⟨mark, base, digits, -, -, -, rfl⟩ := h
  simp

theorem not_literal_of_mapM {token : Text} {n : Numeral} (hn : ofToken? token = some n)
    (hnone : n.digits.mapM (digit? n.base) = none) (v : Nat) : ¬ Literal token v := by
  intro h
  obtain ⟨mark, base, digits, hmark, hdigits, rfl⟩ := h
  rw [ofToken?_of_denotes hmark hdigits, Option.some.injEq] at hn
  subst hn
  obtain ⟨-, values, hvalues, -⟩ := hdigits
  rw [(mapM_digit?_lower_eq_some_iff hmark.base_le).mpr hvalues] at hnone
  contradiction

theorem exists_mark_of_ofToken? {token : Text} {n : Numeral} (h : ofToken? token = some n) :
    ∃ mark digits, BaseMark mark n.base ∧ token = mark ++ digits ∧ n.digits = Text.lower digits ∧
      (mark = [] → digits.head? ≠ some '+') := by
  have hzero {c : Char} (hc : c.toLower = '0') : c = '0' := by
    simpa using Text.eq_or_eq_toUpper hc
  unfold ofToken? at h
  split at h
  · rename_i htoken
    cases h
    obtain ⟨c, rest, rfl, hc, hrest⟩ := List.map_eq_cons_iff.mp htoken
    obtain ⟨m, digits, rfl, hm, rfl⟩ := List.map_eq_cons_iff.mp hrest
    obtain rfl := hzero hc
    exact ⟨['0', m], digits, .hexadecimal (Text.eq_or_eq_toUpper hm), rfl, rfl, by simp⟩
  · rename_i htoken
    cases h
    obtain ⟨c, rest, rfl, hc, hrest⟩ := List.map_eq_cons_iff.mp htoken
    obtain ⟨m, digits, rfl, hm, rfl⟩ := List.map_eq_cons_iff.mp hrest
    obtain rfl := hzero hc
    exact ⟨['0', m], digits, .binary (Text.eq_or_eq_toUpper hm), rfl, rfl, by simp⟩
  · rename_i c rest _ _ htoken
    rw [Option.ite_none_right_eq_some] at h
    obtain ⟨hdigit, h⟩ := h
    cases h
    refine ⟨[], token, .decimal, rfl, htoken.symm, fun _ hplus => ?_⟩
    have hlower : (Text.lower token).head? = some '+' := by
      rw [Text.lower, List.head?_map, hplus]
      rfl
    rw [htoken, List.head?_cons, Option.some.injEq] at hlower
    subst hlower
    exact absurd hdigit (by decide)
  · cases h

theorem exists_ofToken? {c : Char} (hdigit : c.isDigit = true) (rest : Text) :
    ∃ n, ofToken? (c :: rest) = some n := by
  have hsame : c.toLower = c := Text.IsPlain.toLower_eq (.inl hdigit)
  unfold ofToken?
  split
  · exact ⟨_, rfl⟩
  · exact ⟨_, rfl⟩
  · rename_i d _ _ _ htoken
    have hd : d = c := by
      rw [Text.lower, List.map_cons, List.cons.injEq, hsame] at htoken
      exact htoken.1.symm
    rw [hd, if_pos hdigit]
    exact ⟨_, rfl⟩
  · rename_i htoken
    contradiction

end Numeral

namespace Token

open Numeral

theorem numeral?_of_not_literal {c : Char} {rest : Text} (hdigit : c.isDigit = true)
    (hform : ∀ v, ¬ Literal (c :: rest) v) (hsign : ∀ v, ¬ SignedLiteral (c :: rest) v) :
    numeral? (c :: rest) = some (.error (.malformedNumber (c :: rest))) := by
  obtain ⟨n, hn⟩ := exists_ofToken? hdigit rest
  have hnone : n.value? = none := by
    obtain ⟨mark, digits, hmark, htoken, hdigits, hplus⟩ := exists_mark_of_ofToken? hn
    obtain ⟨written, hwritten, hunsigned⟩ := exists_unsigned_lower digits
    rw [← hdigits] at hunsigned
    cases hvalue : n.value? with
    | none => rfl
    | some v =>
      -- what has a value is a literal, with the sign or without it
      have hdenotes := denotes_of_value? hmark.base_le hunsigned hvalue
      rcases hwritten with rfl | rfl
      · exact absurd ⟨mark, n.base, _, hmark, hdenotes, htoken⟩ (hform v)
      · have hne : mark ≠ [] := fun h => hplus h rfl
        exact absurd ⟨mark, n.base, written, hmark, hne, hdenotes, htoken⟩ (hsign v)
  rw [numeral?, hn, Option.map_some, byte, hnone]

theorem numeral?_plus {mark digits : Text} {base v : Nat} (hmark : BaseMark mark base)
    (hne : mark ≠ []) (hdigits : Denotes base digits v) :
    numeral? (mark ++ '+' :: digits) =
      (numeral? (mark ++ digits)).map
        (·.mapError (.mapText fun _ => mark ++ '+' :: digits)) := by
  have hunsigned : unsigned (Text.lower ('+' :: digits)) = Text.lower digits := rfl
  rw [numeral?_of_literal ⟨mark, base, digits, hmark, hdigits, rfl⟩, numeral?,
    ofToken?_mark_append hmark hne, Option.map_some,
    byte_of_denotes hmark.base_le hunsigned hdigits]
  by_cases hbyte : v < 256
  · simp [hbyte, Except.mapError]
  · by_cases hv : v < UInt32.size <;> simp [hbyte, hv, Except.mapError, Fault.mapText]

/-- As an opcode and as a term, whatever the operand is, the token has this fault. -/
structure Faulty (token : Text) (fault : Fault) : Prop where
  opcode : Token.opcode token = .error fault
  term : ∀ whole, Token.term whole token = .error fault

theorem faulty_of_numeral? {c : Char} {rest : Text} {fault : Fault}
    (h : numeral? (c :: rest) = some (.error fault)) : Faulty (c :: rest) fault where
  opcode := by rw [opcode, h]
  term whole := by simp only [term, h]

def ReachesTerm (whole part : Text) : Prop :=
  ∃ front back values, Text.Pieces '|' whole (front ++ part :: back) ∧
    (∀ p ∈ front, p ≠ []) ∧ List.Forall₂ Term front values

theorem operand_of_reachesTerm {whole part : Text} {fault : Fault} (h : ReachesTerm whole part)
    (hpart : term whole part = .error fault) : operand whole = .error fault := by
  obtain ⟨front, back, values, hpieces, hne, hfront⟩ := h
  have hread : front.mapM (term whole) = .ok values :=
    Traversal.mapM_eq_ok_iff.mpr (forall₂_term_iff.mpr ⟨hne, hfront⟩)
  rw [operand, terms, Text.pieces_iff.mp hpieces, List.mapM_append, hread,
    Traversal.mapM_cons_of_error hpart]
  rfl

theorem Operand.exists_term_eq_ok {whole : Text} {value : UInt8} (h : Operand whole value)
    {parts : List Text} (hparts : Text.Pieces '|' whole parts) :
    ∀ part ∈ parts, ∃ v, term whole part = .ok v := by
  obtain ⟨others, values, hothers, hne, hterms, -⟩ := h
  have hread : List.Forall₂ (fun part v => term whole part = .ok v) others values :=
    forall₂_term_iff.mpr ⟨hne, hterms⟩
  rw [← Text.pieces_iff.mp hparts, Text.pieces_iff.mp hothers]
  exact Traversal.exists_forall₂_iff.mp ⟨values, hread⟩

end Token

namespace Line

inductive Holds (line token : Text) : Prop
  | opcode {code second third : Text} :
      Cut line code → Runs code [token, second, third] → Holds line token
  | operand {code first second third whole : Text} {parts : List Text} :
      Cut line code → Runs code [first, second, third] → whole = second ∨ whole = third →
      Text.Pieces '|' whole parts → token ∈ parts → Holds line token

/-- The token stands in this line, and everything in front of it can be read. -/
inductive Reaches (line token : Text) : Prop
  | opcode {code second third : Text} :
      Cut line code → Runs code [token, second, third] → Reaches line token
  | second {code first second third : Text} {op : UInt8} :
      Cut line code → Runs code [first, second, third] → Token.Opcode first op →
      Token.ReachesTerm second token → Reaches line token
  | third {code first second third : Text} {op arg1 : UInt8} :
      Cut line code → Runs code [first, second, third] → Token.Opcode first op →
      Token.Operand second arg1 → Token.ReachesTerm third token → Reaches line token

variable {line token : Text} {fault : Fault}

theorem parse_of_runs {code first second third : Text} (hcut : Cut line code)
    (hruns : Runs code [first, second, third]) :
    parse line = (instruction first second third).map some := by
  rw [parse, cut_iff.mp hcut, runs_iff.mp hruns]

theorem parse_of_reaches (h : Reaches line token) (hfault : Token.Faulty token fault) :
    parse line = .error fault := by
  cases h with
  | opcode hcut hruns =>
    rw [parse_of_runs hcut hruns, instruction, hfault.opcode]
    rfl
  | second hcut hruns hfirst hreach =>
    have hsecond := Token.operand_of_reachesTerm hreach (hfault.term _)
    rw [parse_of_runs hcut hruns, instruction, Token.opcode_eq_ok_iff.mpr hfirst, hsecond]
    rfl
  | third hcut hruns hfirst hsecond hreach =>
    have hthird := Token.operand_of_reachesTerm hreach (hfault.term _)
    rw [parse_of_runs hcut hruns, instruction, Token.opcode_eq_ok_iff.mpr hfirst,
      Token.operand_eq_ok_iff.mpr hsecond, hthird]
    rfl

theorem not_conforms_of_holds (h : Holds line token) (hfault : Token.Faulty token fault) :
    ¬ Conforms line := by
  intro hconforms
  obtain ⟨value, hvalue⟩ := conforms_iff.mp hconforms
  cases h with
  | opcode hcut hruns =>
    rw [parse_of_runs hcut hruns, instruction, hfault.opcode] at hvalue
    contradiction
  | operand hcut hruns hwhole hparts hmem =>
    rw [parse_of_runs hcut hruns, Traversal.map_eq_ok_iff] at hvalue
    obtain ⟨i, hi, -⟩ := hvalue
    obtain ⟨-, hsecond, hthird⟩ := instruction_eq_ok_iff.mp hi
    have hread : ∃ whole v, Token.term whole token = .ok v := by
      rcases hwhole with rfl | rfl
      · exact ⟨_, hsecond.exists_term_eq_ok hparts token hmem⟩
      · exact ⟨_, hthird.exists_term_eq_ok hparts token hmem⟩
    obtain ⟨whole, v, hv⟩ := hread
    rw [hfault.term whole] at hv
    contradiction

end Line

namespace Assembly

open Numeral

theorem exists_assemble_error_of_holds {source line token : Text} {fault : Fault}
    (hline : line ∈ source.splitOn '\n') (h : Line.Holds line token)
    (hfault : Token.Faulty token fault) : ∃ cause, assemble source = .error cause := by
  cases hsource : assemble source with
  | error cause => exact ⟨cause, rfl⟩
  | ok code =>
    have hall := exists_assemble_iff.mp ⟨code, hsource⟩
    exact absurd (hall line hline) (Line.not_conforms_of_holds h hfault)

/-- The token has this fault wherever it stands. No source that holds it assembles, and its fault
is the one reported if it is reached before anything else that is wrong. -/
structure Reports (token : Text) (fault : Fault) : Prop where
  faulty : Token.Faulty token fault
  refused : ∀ (source line : Text), line ∈ source.splitOn '\n' → Line.Holds line token →
    ∃ cause, assemble source = .error cause
  reported : ∀ (source : Text) (i : Nat) (line : Text), (source.splitOn '\n')[i]? = some line →
    Line.Reaches line token →
    (∀ j < i, ∀ earlier, (source.splitOn '\n')[j]? = some earlier → Line.Conforms earlier) →
    assemble source = .error (.source (i + 1) fault)

theorem reports_of_faulty {token : Text} {fault : Fault} (h : Token.Faulty token fault) :
    Reports token fault where
  faulty := h
  refused source line hline hholds := exists_assemble_error_of_holds hline hholds h
  reported source i line hline hreaches hearlier := by
    have hparse := Line.parse_of_reaches hreaches h
    exact assemble_eq_error_iff.mpr ⟨i, line, fault, hline, hparse, rfl, hearlier⟩

/-- A token that starts with a decimal digit and is no literal is a malformed number. A source with
such an opcode or term is refused, and for this token if nothing in front of it is wrong. Left out
is a literal with a plus sign behind its base mark, which is read as if the sign were not there. -/
theorem assemble_malformedNumber {token : Text} (hdigit : ∃ c ∈ token.head?, c.isDigit = true)
    (hform : ∀ v, ¬ Literal token v) :
    ((∀ v, ¬ SignedLiteral token v) → Reports token (.malformedNumber token)) ∧
    ∀ mark base digits v, BaseMark mark base → mark ≠ [] → Denotes base digits v →
      token = mark ++ '+' :: digits →
      Token.numeral? token =
        (Token.numeral? (mark ++ digits)).map (·.mapError (.mapText fun _ => token)) := by
  obtain ⟨c, hc, hdigit⟩ := hdigit
  obtain ⟨rest, rfl⟩ := List.head?_eq_some_iff.mp hc
  constructor
  · intro hsign
    have hnumeral := Token.numeral?_of_not_literal hdigit hform hsign
    exact reports_of_faulty (Token.faulty_of_numeral? hnumeral)
  · intro mark base digits v hmark hne hdigits htoken
    rw [htoken]
    exact Token.numeral?_plus hmark hne hdigits

theorem assemble_malformedNumber_term :
    let token := "0b2".toList
    (∃ c ∈ token.head?, c.isDigit = true) ∧ (∀ v, ¬ Literal token v) ∧
    (∀ v, ¬ SignedLiteral token v) ∧
    assemble "imm a 1\nadd a lt|0b2|x ; b".toList =
      .error (.source 2 (.malformedNumber token)) := by
  intro token
  have hdigit : ∃ c ∈ token.head?, c.isDigit = true := ⟨'0', rfl, by decide⟩
  have hform : ∀ v, ¬ Literal token v :=
    not_literal_of_mapM (n := ⟨2, ['2']⟩) (by decide) (by decide)
  have hsign : ∀ v, ¬ SignedLiteral token v := fun v h => absurd h.plus_mem (by decide)
  have hreaches : Line.Reaches "add a lt|0b2|x ; b".toList token := by
    have hterm : Token.ReachesTerm "lt|0b2|x".toList token :=
      ⟨["lt".toList], ["x".toList], [0x08], Text.pieces_iff.mpr (by decide), by decide,
        .cons (.jumpCondition ⟨("lt", 0x08), by decide, rfl, rfl⟩) .nil⟩
    have hruns : Line.Runs "add a lt|0b2|x ".toList
        ["add".toList, "a".toList, "lt|0b2|x".toList] := Line.runs_iff.mpr (by decide)
    have hop : Token.Opcode "add".toList 0x80 := .name ⟨("add", 0x80), by decide, rfl, rfl⟩
    have harg1 : Token.Operand "a".toList 0x10 := Token.operand_eq_ok_iff.mp (by decide)
    exact .third (Line.cut_iff.mpr (by decide)) hruns hop harg1 hterm
  refine ⟨hdigit, hform, hsign, ?_⟩
  have hreports := (assemble_malformedNumber hdigit hform).1 hsign
  refine hreports.reported _ 1 _ (by decide) hreaches fun j hj earlier hearlier => ?_
  obtain rfl : j = 0 := by omega
  obtain rfl : "imm a 1".toList = earlier := Option.some.inj hearlier
  exact Line.conforms_iff.mpr ⟨some ⟨0x01, 0x10, 1⟩, by decide⟩

/-- The sign is no digit, and yet the number is read. -/
theorem assemble_signedLiteral :
    let token := "0x+5".toList
    (∃ c ∈ token.head?, c.isDigit = true) ∧ (∀ v, ¬ Literal token v) ∧
    ¬ Token.Faulty token (.malformedNumber token) ∧
    assemble "imm 0x+5 1".toList = .ok [⟨0x01, 5, 1⟩] := by
  intro token
  refine ⟨⟨'0', rfl, by decide⟩,
    not_literal_of_mapM (n := ⟨16, ['+', '5']⟩) (by decide) (by decide), ?_, by decide⟩
  intro h
  exact absurd h.opcode (by decide)

end Assembly

end Tribyte
