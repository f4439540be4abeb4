import Tribyte.Proofs.Assembly.Literal
import Tribyte.Proofs.Assembly.Source
import Tribyte.Proofs.Text.Case

/-!
# Case does not count

Lowering a source changes what it assembles to in nothing but the texts that an error quotes. Every
reader of a token, a line or a source has this law, each from the one below it.
-/

namespace Tribyte

open Text (lower)

def Error.mapFault (f : Fault → Fault) : Error → Error
  | .source number fault => .source number (f fault)
  | e => e

theorem Fault.message_mapText_lower (fault : Fault) :
    (fault.mapText lower).message = fault.message.toLower := by
  have hquoted {front back : String} (hfront : lower front.toList = front.toList)
      (hback : lower back.toList = back.toList) (t : Text) :
      front ++ String.ofList (lower t) ++ back = (front ++ String.ofList t ++ back).toLower := by
    rw [Text.toLower_within hfront hback, Text.toLower_ofList]
  cases fault with
  | tokenCount n =>
    refine Eq.trans ?_ (Eq.symm (Text.toLower_within (by decide) (by decide) (toString n)))
    rw [Text.toLower_toString]
    rfl
  | malformedNumber t => exact hquoted (by decide) (by decide) t
  | tooWide t => exact hquoted (by decide) (by decide) t
  | unknownOpcode t => exact hquoted (by decide) (by decide) t
  | unknownOperand t => exact hquoted (by decide) (by decide) t
  | emptyTerm t => exact hquoted (by decide) (by decide) t

theorem Table.get?_lower (t : Table) (name : Text) : t.get? (lower name) = t.get? name := by
  simp only [get?, Text.sameLetters, Text.lower_lower]

namespace Numeral

theorem ofToken?_lower (token : Text) : ofToken? (lower token) = ofToken? token := by
  rw [ofToken?, ofToken?, Text.lower_lower]

theorem byte_lower (token : Text) (n : Numeral) :
    byte (lower token) n = (byte token n).mapError (.mapText lower) := by
  unfold byte
  cases n.value? with
  | none => rfl
  | some v =>
    dsimp only
    by_cases hv : v < 256
    · rw [if_pos hv, if_pos hv]
      rfl
    · rw [if_neg hv, if_neg hv]
      rfl

end Numeral

namespace Token

theorem numeral?_lower (token : Text) :
    numeral? (lower token) = (numeral? token).map (·.mapError (.mapText lower)) := by
  rw [numeral?, numeral?, Numeral.ofToken?_lower, Option.map_map]
  congr 1
  exact funext (Numeral.byte_lower token)

theorem symbol?_lower (name : Text) : symbol? (lower name) = symbol? name := by
  simp only [symbol?, Table.get?_lower]

theorem opcode_lower (token : Text) :
    opcode (lower token) = (opcode token).mapError (.mapText lower) := by
  rw [opcode, opcode, numeral?_lower, Table.get?_lower]
  cases numeral? token with
  | some result => rfl
  | none => cases Constants.opcode.get? token <;> rfl

theorem term_lower (whole part : Text) :
    term (lower whole) (lower part) = (term whole part).mapError (.mapText lower) := by
  cases part with
  | nil => rfl
  | cons c part =>
    have hread := numeral?_lower (c :: part)
    have hname := symbol?_lower (c :: part)
    have hcons : lower (c :: part) = c.toLower :: lower part := rfl
    rw [hcons] at hread hname ⊢
    simp only [term, hread, hname]
    cases numeral? (c :: part) with
    | some result => rfl
    | none => cases symbol? (c :: part) <;> rfl

theorem terms_lower (token : Text) : terms (lower token) = (terms token).map lower :=
  Text.splitOn_lower (by decide) token

theorem operand_lower (token : Text) :
    operand (lower token) = (operand token).mapError (.mapText lower) := by
  rw [operand, operand, terms_lower, Traversal.mapM_map_of_mapError (term_lower token),
    Traversal.mapError_map]

end Token

namespace Line

theorem code_lower (line : Text) : code (lower line) = lower (code line) :=
  Text.takeWhile_lower (by decide) line

theorem tokens_lower (text : Text) : tokens (lower text) = (tokens text).map lower := by
  have hne : (· != ([] : Text)) ∘ lower = (· != []) := by
    funext t
    cases t <;> rfl
  rw [tokens, Text.splitOnP_lower (by decide), List.filter_map, hne]
  rfl

theorem instruction_lower (op arg1 arg2 : Text) :
    instruction (lower op) (lower arg1) (lower arg2) =
      (instruction op arg1 arg2).mapError (.mapText lower) := by
  rw [instruction, Token.opcode_lower, Token.operand_lower, Token.operand_lower, instruction]
  cases Token.opcode op with
  | error fault => rfl
  | ok value =>
    cases Token.operand arg1 with
    | error fault => rfl
    | ok value => cases Token.operand arg2 <;> rfl

theorem parse_lower (line : Text) :
    parse (lower line) = (parse line).mapError (.mapText lower) := by
  rw [parse, parse, code_lower, tokens_lower]
  rcases tokens (code line) with _ | ⟨op, _ | ⟨arg1, _ | ⟨arg2, _ | ⟨other, others⟩⟩⟩⟩
  · rfl
  · rfl
  · rfl
  · exact (congrArg _ (instruction_lower op arg1 arg2)).trans Traversal.mapError_map
  · have hcount : ((op :: arg1 :: arg2 :: other :: others).map lower).length =
        (op :: arg1 :: arg2 :: other :: others).length := List.length_map lower
    exact congrArg (fun n => Except.error (Fault.tokenCount n)) hcount

end Line

namespace Assembly

theorem parseLine_lower (numbered : Text × Nat) :
    parseLine (numbered.map lower id) =
      (parseLine numbered).mapError (.mapFault (.mapText lower)) := by
  obtain ⟨line, number⟩ := numbered
  rw [Prod.map_apply, parseLine, parseLine, Line.parse_lower]
  cases Line.parse line <;> rfl

theorem assemble_lower (source : Text) :
    assemble (lower source) = (assemble source).mapError (.mapFault (.mapText lower)) := by
  rw [assemble_eq_readFrom, assemble_eq_readFrom, readFrom, readFrom,
    Text.splitOn_lower (by decide), List.zipIdx_map,
    Traversal.mapM_map_of_mapError parseLine_lower, Traversal.mapError_map]

theorem assemble_of_sameLetters {source other : Text}
    (h : Text.sameLetters source other = true) :
    (∃ code, assemble source = .ok code ∧ assemble other = .ok code) ∨
    ∃ number fault fault', assemble source = .error (.source number fault) ∧
      assemble other = .error (.source number fault') ∧
      fault.message.toLower = fault'.message.toLower := by
  -- Both sources are the same when lowered, so their results differ only in what the errors quote.
  have hsame : (assemble source).mapError (Error.mapFault (.mapText lower)) =
      (assemble other).mapError (Error.mapFault (.mapText lower)) := by
    rw [← assemble_lower, ← assemble_lower, Text.sameLetters_iff.mp h]
  cases hsource : assemble source with
  | ok code =>
    cases hother : assemble other with
    | ok more =>
      rw [hsource, hother] at hsame
      cases hsame
      exact .inl ⟨code, rfl, rfl⟩
    | error e =>
      rw [hsource, hother] at hsame
      contradiction
  | error e =>
    cases hother : assemble other with
    | ok more =>
      rw [hsource, hother] at hsame
      contradiction
    | error e' =>
      obtain ⟨i, -, fault, -, -, rfl, -⟩ := assemble_eq_error_iff.mp hsource
      obtain ⟨j, -, fault', -, -, rfl, -⟩ := assemble_eq_error_iff.mp hother
      rw [hsource, hother] at hsame
      simp only [Except.mapError, Error.mapFault, Except.error.injEq, Error.source.injEq] at hsame
      obtain ⟨hnumber, hfault⟩ := hsame
      refine .inr ⟨i + 1, fault, fault', rfl, hnumber ▸ rfl, ?_⟩
      rw [← Fault.message_mapText_lower, hfault, Fault.message_mapText_lower]

/-- A lowered source assembles to the same instructions, or fails at the same line with the message
lowered. So of two sources that differ in the case of ASCII letters alone, either both assemble to
the same, or both fail at the same line with messages that differ in case alone. -/
theorem assemble_caseless (source : Text) :
    assemble (lower source) = (assemble source).mapError (.mapFault (.mapText lower)) ∧
    (∀ fault : Fault, (fault.mapText lower).message = fault.message.toLower) ∧
    ∀ other, Text.sameLetters source other = true →
      (∃ code, assemble source = .ok code ∧ assemble other = .ok code) ∨
      ∃ number fault fault', assemble source = .error (.source number fault) ∧
        assemble other = .error (.source number fault') ∧
        fault.message.toLower = fault'.message.toLower :=
  ⟨assemble_lower source, Fault.message_mapText_lower, fun _ h => assemble_of_sameLetters h⟩

theorem assemble_caseless_unknownOpcode :
    let source := "IMM a 0Xf\nNopÉ A 1".toList
    let other := "imm A 0xF\nnOPÉ a 1".toList
    Text.sameLetters source other = true ∧
    assemble (lower source) = .error (.source 2 (.unknownOpcode "nopÉ".toList)) ∧
    ∃ fault fault', assemble source = .error (.source 2 fault) ∧
      assemble other = .error (.source 2 fault') ∧ fault ≠ fault' ∧
      fault.message.toLower = fault'.message.toLower := by
  intro source other
  have hsame : Text.sameLetters source other = true := by decide
  have hsource : assemble source = .error (.source 2 (.unknownOpcode "NopÉ".toList)) := by decide
  have hother : assemble other = .error (.source 2 (.unknownOpcode "nOPÉ".toList)) := by decide
  obtain ⟨hlower, -, hpair⟩ := assemble_caseless source
  refine ⟨hsame, ?_, ?_⟩
  · rw [hlower, hsource]
    decide
  · rcases hpair other hsame with ⟨code, hcode, -⟩ | ⟨number, fault, fault', h, h', hmessage⟩
    · rw [hsource] at hcode
      contradiction
    · rw [hsource] at h
      rw [hother] at h'
      cases h
      cases h'
      exact ⟨_, _, hsource, hother, by decide, hmessage⟩

end Assembly

end Tribyte
