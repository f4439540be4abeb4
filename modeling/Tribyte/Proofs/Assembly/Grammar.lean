import Mathlib.Data.List.Fold
import Tribyte.Assembly
import Tribyte.Proofs.Constants.Names
import Tribyte.Proofs.Text.Pieces
import Tribyte.Proofs.Traversal

/-!
# The grammar of a line

A line stands for nothing or for one instruction. The grammar says which, without an order in which
things are tried: what the code of a line is, what its tokens are, and what byte an opcode, a term
or an operand stands for. The reader of lines accepts exactly what the grammar allows.
-/

namespace Tribyte

namespace Token

inductive Opcode : Text → UInt8 → Prop
  | numeral {token : Text} {value : UInt8} :
      numeral? token = some (.ok value) → Opcode token value
  | name {token : Text} {value : UInt8} :
      Constants.opcode.Names token value → Opcode token value

inductive Term : Text → UInt8 → Prop
  | numeral {part : Text} {value : UInt8} :
      numeral? part = some (.ok value) → Term part value
  | register {part : Text} {value : UInt8} :
      Constants.register.Names part value → Term part value
  | systemCall {part : Text} {value : UInt8} :
      Constants.systemCall.Names part value → Term part value
  | jumpCondition {part : Text} {value : UInt8} :
      Constants.jumpCondition.Names part value → Term part value

def Operand (token : Text) (value : UInt8) : Prop :=
  ∃ parts values, Text.Pieces '|' token parts ∧ (∀ part ∈ parts, part ≠ []) ∧
    List.Forall₂ Term parts values ∧ value = values.foldr (· ||| ·) 0

theorem reading_eq_ok_iff {t : Table} (hnames : t.Unambiguous) (hnumeral : t.NoNumeral)
    {token : Text} {value : UInt8} {fault : Fault} :
    (match numeral? token with
      | some result => result
      | none =>
        match t.get? token with
        | some value => .ok value
        | none => .error fault) = .ok value ↔
      numeral? token = some (.ok value) ∨ t.Names token value := by
  rw [← Table.get?_eq_some_iff hnames]
  cases hnum : numeral? token with
  | some result =>
    have hnone : t.get? token ≠ some value := by
      intro hget
      have hname := (Table.get?_eq_some_iff hnames).mp hget
      rw [numeral?_eq_none_of_names hnumeral hname] at hnum
      contradiction
    simp [hnone]
  | none => cases t.get? token <;> simp

theorem opcode_eq_ok_iff {token : Text} {value : UInt8} :
    opcode token = .ok value ↔ Opcode token value := by
  have hread : opcode token = .ok value ↔
      numeral? token = some (.ok value) ∨ Constants.opcode.Names token value :=
    reading_eq_ok_iff Constants.opcode_unambiguous Constants.opcode_noNumeral
  rw [hread]
  constructor
  · intro h
    rcases h with h | h
    · exact .numeral h
    · exact .name h
  · intro h
    rcases h with h | h
    · exact .inl h
    · exact .inr h

theorem term_iff {part : Text} {value : UInt8} :
    Term part value ↔
      numeral? part = some (.ok value) ∨ Constants.operandNames.Names part value := by
  rw [Constants.operandNames_names_iff]
  constructor
  · intro h
    rcases h with h | h | h | h
    · exact .inl h
    · exact .inr (.inl h)
    · exact .inr (.inr (.inl h))
    · exact .inr (.inr (.inr h))
  · intro h
    rcases h with h | h | h | h
    · exact .numeral h
    · exact .register h
    · exact .systemCall h
    · exact .jumpCondition h

theorem term_eq_ok_iff {whole part : Text} {value : UInt8} :
    term whole part = .ok value ↔ part ≠ [] ∧ Term part value := by
  cases part with
  | nil => simp [term]
  | cons c part =>
    have hread : term whole (c :: part) = .ok value ↔ numeral? (c :: part) = some (.ok value) ∨
        Constants.operandNames.Names (c :: part) value := by
      simp only [term, symbol?_eq_get?]
      exact reading_eq_ok_iff Constants.operandNames_unambiguous Constants.operandNames_noNumeral
    rw [hread, term_iff]
    simp

theorem join_eq_foldr (values : List UInt8) : join values = values.foldr (· ||| ·) 0 :=
  List.foldl_eq_foldr

theorem forall₂_term_iff {whole : Text} {parts : List Text} {values : List UInt8} :
    List.Forall₂ (fun part value => term whole part = .ok value) parts values ↔
      (∀ part ∈ parts, part ≠ []) ∧ List.Forall₂ Term parts values := by
  simp only [term_eq_ok_iff, List.forall₂_and_left]

theorem operand_eq_ok_iff {token : Text} {value : UInt8} :
    operand token = .ok value ↔ Operand token value := by
  simp only [operand, Traversal.map_eq_ok_iff, Traversal.mapM_eq_ok_iff, forall₂_term_iff,
    join_eq_foldr]
  constructor
  · intro h
    obtain ⟨values, ⟨hne, hterms⟩, rfl⟩ := h
    exact ⟨terms token, values, Text.pieces_iff.mpr rfl, hne, hterms, rfl⟩
  · intro h
    obtain ⟨parts, values, hparts, hne, hterms, rfl⟩ := h
    obtain rfl : terms token = parts := Text.pieces_iff.mp hparts
    exact ⟨values, ⟨hne, hterms⟩, rfl⟩

end Token

namespace Line

def Separates (c : Char) : Prop := c = ',' ∨ Text.isBlank c = true

def Cut (line code : Text) : Prop :=
  ';' ∉ code ∧ (line = code ∨ ∃ comment, line = code ++ ';' :: comment)

/-- These are the runs of the text, each as long as it can be, and the rest are separators. -/
inductive Runs : Text → List Text → Prop
  | nil : Runs [] []
  | separator {c : Char} {rest : Text} {runs : List Text} :
      Separates c → Runs rest runs → Runs (c :: rest) runs
  | run {run rest : Text} {runs : List Text} :
      run ≠ [] → (∀ c ∈ run, ¬ Separates c) → (∀ c ∈ rest.head?, Separates c) →
      Runs rest runs → Runs (run ++ rest) (run :: runs)

inductive Reads : Text → Option Instruction → Prop
  | blank {line code : Text} : Cut line code → Runs code [] → Reads line none
  | instruction {line code first second third : Text} {op arg1 arg2 : UInt8} :
      Cut line code → Runs code [first, second, third] →
      Token.Opcode first op → Token.Operand second arg1 → Token.Operand third arg2 →
      Reads line (some ⟨op, arg1, arg2⟩)

def Conforms (line : Text) : Prop := ∃ value, Reads line value

theorem isSeparator_iff {c : Char} : isSeparator c = true ↔ Separates c := by
  simp [isSeparator, Separates]

theorem isSeparator_eq_false_iff {c : Char} : isSeparator c = false ↔ ¬ Separates c := by
  rw [← isSeparator_iff, Bool.not_eq_true]

theorem cut_iff {line code : Text} : Cut line code ↔ Line.code line = code := by
  rw [Line.code, Text.takeWhile_eq_iff]
  constructor
  · intro h
    obtain ⟨hfree, hline⟩ := h
    have hkept : ∀ c ∈ code, (c != ';') = true := by
      intro c hc
      rw [bne_iff_ne]
      intro h
      subst h
      exact hfree hc
    rcases hline with rfl | ⟨comment, rfl⟩
    · exact ⟨[], by simp, hkept, by simp⟩
    · exact ⟨';' :: comment, rfl, hkept, by simp⟩
  · intro h
    obtain ⟨rest, rfl, hkept, hrest⟩ := h
    refine ⟨fun h => by simpa using hkept ';' h, ?_⟩
    cases rest with
    | nil => exact .inl (List.append_nil code)
    | cons c comment =>
      obtain rfl : c = ';' := by simpa using hrest c rfl
      exact .inr ⟨comment, rfl⟩

theorem tokens_cons_of_separates {c : Char} (h : Separates c) (rest : Text) :
    tokens (c :: rest) = tokens rest := by
  rw [tokens, List.splitOnP_cons_eq_if_modifyHead, if_pos (isSeparator_iff.mpr h)]
  rfl

theorem tokens_append_run {run rest : Text} (hne : run ≠ []) (hrun : ∀ c ∈ run, ¬ Separates c)
    (hrest : ∀ c ∈ rest.head?, Separates c) : tokens (run ++ rest) = run :: tokens rest := by
  have hsep : ∀ c ∈ run, isSeparator c = false := fun c hc =>
    isSeparator_eq_false_iff.mpr (hrun c hc)
  cases rest with
  | nil =>
    rw [tokens, List.append_nil, List.splitOnP_eq_singleton hsep]
    simp [hne, tokens]
  | cons c rest =>
    have hc : Separates c := hrest c rfl
    rw [tokens_cons_of_separates hc, tokens,
      List.splitOnP_append_cons_of_forall_mem hsep c (isSeparator_iff.mpr hc)]
    simp [hne, tokens]

theorem runs_tokens (text : Text) : Runs text (tokens text) := by
  match text with
  | [] => exact .nil
  | c :: rest =>
    by_cases hc : Separates c
    · rw [tokens_cons_of_separates hc]
      exact .separator hc (runs_tokens rest)
    · -- a run starts here: it ends where the first separator or the text does
      obtain ⟨after, hsplit, hrun, hafter⟩ :=
        Text.takeWhile_eq_iff.mp (rfl : (c :: rest).takeWhile (!isSeparator ·) = _)
      have hfirst : (c :: rest).takeWhile (!isSeparator ·) = c :: rest.takeWhile (!isSeparator ·) :=
        List.takeWhile_cons_of_pos (by simpa using isSeparator_eq_false_iff.mpr hc)
      have hne : (c :: rest).takeWhile (!isSeparator ·) ≠ [] := by simp [hfirst]
      have hshort : after.length < (c :: rest).length := by
        have hlen := congrArg List.length hsplit
        simp only [hfirst, List.length_append, List.length_cons] at hlen
        rw [List.length_cons]
        omega
      have hrun' : ∀ d ∈ (c :: rest).takeWhile (!isSeparator ·), ¬ Separates d := fun d hd =>
        isSeparator_eq_false_iff.mp (by simpa using hrun d hd)
      have hafter' : ∀ d ∈ after.head?, Separates d := fun d hd =>
        isSeparator_iff.mp (by simpa using hafter d hd)
      rw [hsplit, tokens_append_run hne hrun' hafter']
      exact .run hne hrun' hafter' (runs_tokens after)
termination_by text.length
decreasing_by
  · exact Nat.lt_succ_self rest.length
  · exact hshort

theorem runs_iff {text : Text} {runs : List Text} : Runs text runs ↔ tokens text = runs := by
  constructor
  · intro h
    induction h with
    | nil => rfl
    | separator hc _ ih => rw [tokens_cons_of_separates hc, ih]
    | run hne hrun hrest _ ih => rw [tokens_append_run hne hrun hrest, ih]
  · intro h
    subst h
    exact runs_tokens text

theorem Runs.not_separates {text : Text} {runs : List Text} (h : Runs text runs) :
    ∀ run ∈ runs, ∀ c ∈ run, ¬ Separates c := by
  induction h with
  | nil => simp
  | separator _ _ ih => exact ih
  | run _ hrun _ _ ih => exact List.forall_mem_cons.mpr ⟨hrun, ih⟩

/-- Terms need no trimming, for no token of a line holds white space. -/
theorem map_trim_terms {text token : Text} (h : token ∈ tokens text) :
    (Token.terms token).map Text.trim = Token.terms token := by
  have htrim : ∀ part ∈ Token.terms token, part.trim = part := by
    intro part hpart
    refine Text.trim_eq_self fun c hc => ?_
    have hkept : ¬ Separates c :=
      (runs_tokens text).not_separates token h c (Text.subset_of_mem_splitOn part hpart hc)
    rw [← Bool.not_eq_true]
    exact fun hblank => hkept (.inr hblank)
  rw [List.map_congr_left htrim, List.map_id']

theorem instruction_eq_ok_iff {first second third : Text} {i : Instruction} :
    instruction first second third = .ok i ↔
      Token.Opcode first i.op ∧ Token.Operand second i.arg1 ∧ Token.Operand third i.arg2 := by
  rw [← Token.opcode_eq_ok_iff, ← Token.operand_eq_ok_iff, ← Token.operand_eq_ok_iff, instruction]
  cases Token.opcode first with
  | error e => simp [bind, Except.bind]
  | ok op =>
    cases Token.operand second with
    | error e => simp [bind, Except.bind]
    | ok arg1 =>
      cases Token.operand third with
      | error e => simp [bind, Except.bind]
      | ok arg2 =>
        simp only [bind, Except.bind, pure, Except.pure, Except.ok.injEq, Instruction.ext_iff]

theorem parse_eq_ok_iff {line : Text} {value : Option Instruction} :
    parse line = .ok value ↔ Reads line value := by
  constructor
  · intro h
    have hcut : Cut line (code line) := cut_iff.mpr rfl
    have hruns := runs_tokens (code line)
    rw [parse] at h
    split at h
    · rename_i htokens
      cases h
      exact .blank hcut (htokens ▸ hruns)
    · rename_i first second third htokens
      obtain ⟨i, hi, rfl⟩ := Traversal.map_eq_ok_iff.mp h
      obtain ⟨hop, harg1, harg2⟩ := instruction_eq_ok_iff.mp hi
      exact .instruction hcut (htokens ▸ hruns) hop harg1 harg2
    · contradiction
  · intro h
    cases h with
    | blank hcut hruns => rw [parse, cut_iff.mp hcut, runs_iff.mp hruns]
    | instruction hcut hruns hop harg1 harg2 =>
      rw [parse, cut_iff.mp hcut, runs_iff.mp hruns]
      exact Traversal.map_eq_ok_iff.mpr
        ⟨_, instruction_eq_ok_iff.mpr ⟨hop, harg1, harg2⟩, rfl⟩

theorem conforms_iff {line : Text} : Conforms line ↔ ∃ value, parse line = .ok value := by
  simp only [Conforms, parse_eq_ok_iff]

end Line

end Tribyte
