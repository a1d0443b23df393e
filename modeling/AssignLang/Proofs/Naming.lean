import Mathlib.Tactic.TFAE
import AssignLang.Config.Reader
import AssignLang.Proofs.Scoping

/-! Which names a program can assign. A name reaches the table of definitions only from a
token, and a token that is a name is a valid identifier, whatever the parser had to
recover from. The other way round a valid identifier is scanned as one token, and
assigning it is a program. So settings accept exactly the output variables that some
program defines. -/

namespace AssignLang

open Definitions

def assigning (name : Text) : Text := name ++ [':', '=', '0']

section Names

variable {name : Text}

theorem laid_word (h : Identifier.isValid name = true) : Laid [⟨[], false, .word name⟩] [] :=
  ⟨.nil, ⟨h, by simp [spell]⟩, false, .closed .nil⟩

theorem TokenStream.ofText_word {name : String}
    (h : Identifier.isValid name.toList = true) :
    ofText name.toList = ⟨[⟨⟨.ident name, ⟨{}, Text.finish name.toList⟩⟩, []⟩],
      Text.finish name.toList, []⟩ := by
  have hspell : spell [⟨[], false, .word name.toList⟩] [] = name.toList := by
    simp [spell, Lexeme.spelling]
  have hscan := ofText_laid (laid_word h)
  rw [hspell] at hscan
  simpa [readingsAt, assignNext, Lexeme.terminalBefore, Lexeme.spelling, Lexeme.reports, gapRun,
    unknownReports, Text.finish] using hscan

def assigningPieces (name : Text) : List Piece :=
  [⟨[], false, .word name⟩, ⟨[], false, .assign⟩, ⟨[], false, .number ['0']⟩]

theorem spell_assigningPieces (name : Text) : spell (assigningPieces name) [] = assigning name := by
  simp [assigningPieces, spell, Lexeme.spelling, assigning]

theorem laid_assigningPieces (h : Identifier.isValid name = true) :
    Laid (assigningPieces name) [] := by
  have hcolon : Identifier.isPart ':' = false := by decide
  have hzero : ∀ c ∈ ['0'], c.isDigit = true := List.forall_mem_singleton.2 rfl
  refine ⟨.nil, ⟨h, ?_⟩, .nil, trivial, .nil, ⟨by simp, hzero, by simp [spell]⟩, false,
    .closed .nil⟩
  simp [spell, Lexeme.spelling, hcolon]

theorem Derived.statements_assign {t u w : Token} {target : Ident} {value : Expr}
    (ht : t.target? = some target) (hu : u.terminal = .assign) (hw : w.operand? = some value) :
    Statements [.complete target value] [t, u, w] := by
  have hproduct : Product value [w] := ⟨value, [w], [], rfl, ⟨w, rfl, hw⟩, .done value⟩
  have hvalue : Value value [w] := ⟨value, [w], [], rfl, hproduct, .done value⟩
  exact .cons ⟨t, target, u, value, [w], rfl, ht, hu, hvalue, rfl⟩ .nil

/-- There is nothing wrong with the program that assigns a valid identifier. -/
theorem hasErrors_assigning {config : Config}
    (h : Identifier.isValid config.outputVariable.toList = true) :
    (analyze config (assigning config.outputVariable.toList)).hasErrors = false := by
  have hlaid := laid_assigningPieces h
  have htokens := TokenStream.tokens_laid hlaid
  have hreports := hlaid.reports_eq_nil_iff
  rw [spell_assigningPieces] at htokens hreports
  obtain ⟨start, zero, hstatements⟩ : ∃ start zero, Derived.Statements
      [.complete ⟨start, String.ofList config.outputVariable.toList⟩ (.integer zero "0")]
      (TokenStream.ofText (assigning config.outputVariable.toList)).tokens := by
    rw [htokens]
    exact ⟨_, _, Derived.statements_assign rfl rfl rfl⟩
  rw [String.ofList_toList] at hstatements
  obtain ⟨hread, hfaults⟩ := hstatements.read
  rw [hasErrors_iff_reports, File.reports_parse_eq_nil_iff, (File.read_parse _).1, hread]
  refine ⟨⟨hreports.2 ?_, hfaults⟩, rfl, _, List.mem_singleton_self _, rfl⟩
  exact ⟨by simp [assigningPieces, Piece.isClean, Lexeme.isClosed], .closed .nil⟩

end Names

theorem isValid_of_mem_table {text : Text} {front : List Assignment} {name : String}
    (hfront : front <+: (File.parse text).file.assignments) (h : name ∈ table front) :
    Identifier.isValid name.toList = true := by
  obtain ⟨a, ha, rfl⟩ := contains_table_iff.1 (Std.TreeMap.mem_iff_contains.1 h)
  exact File.isValid_of_mem_idents text
    (List.mem_flatMap.2 ⟨a, hfront.subset ha, List.mem_cons_self⟩)

/-- The output is reported as missing exactly if nothing assigns it. -/
theorem filter_isMissingOutput_analyze (config : Config) (text : Text) :
    (analyze config text).diagnostics.filter (·.cause.isMissingOutput) =
      (File.parse text).file.missingReports config (table (File.parse text).file.assignments) := by
  have hparse : (File.parse text).reports.filter (·.cause.isMissingOutput) = [] := by
    refine File.filter_reports (fun cause hcause => ?_) text
    cases cause <;> simp_all [Cause.isMissingOutput, Cause.isLexical, Cause.isExpectation]
  change ((File.parse text).reports ++ ((File.parse text).file.check config).reports).filter _ = _
  rw [List.filter_append, hparse, List.nil_append, File.check_eq_checkIn,
    File.filter_isMissingOutput_checkIn]

theorem isValid_of_not_missing {config : Config} {text : Text}
    (h : (analyze config text).diagnostics.filter (·.cause.isMissingOutput) = []) :
    Identifier.isValid config.outputVariable.toList = true := by
  rw [filter_isMissingOutput_analyze, File.missingReports] at h
  split at h
  · rename_i hcontains
    exact isValid_of_mem_table (List.prefix_refl _) (Std.TreeMap.mem_iff_contains.2 hcontains)
  · simp at h

theorem filter_isMissingOutput_of_hasErrors {a : Analysis} (h : a.hasErrors = false) :
    a.diagnostics.filter (·.cause.isMissingOutput) = [] := by
  rw [List.filter_eq_nil_iff]
  intro d hd hmissing
  refine List.any_eq_false.1 h d hd ?_
  cases hcause : d.cause <;>
    simp_all [Cause.isMissingOutput, Diagnostic.isError, Diagnostic.severity, Cause.severity]

theorem validate_eq_ok_iff {config : Config} :
    config.validate = .ok config ↔ Identifier.isValid config.outputVariable.toList = true := by
  rw [Config.validate, Config.isValid]
  split <;> simp_all

/-- Settings accept a name, the scanner takes it for one identifier, some program without
errors assigns it and some text is not found to lack it: these are the same names. Tables
have no others, and any other name is always found missing. -/
theorem outputVariable_tfae (name : String) :
    [Identifier.isValid name.toList = true,
      ∀ config : Config, config.outputVariable = name → config.validate = .ok config,
      TokenStream.ofText name.toList =
        ⟨[⟨⟨.ident name, ⟨{}, Text.finish name.toList⟩⟩, []⟩], Text.finish name.toList, []⟩,
      ∃ text, ∃ config : Config, config.outputVariable = name ∧
        (analyze config text).hasErrors = false,
      ∃ text, ∃ config : Config, config.outputVariable = name ∧
        (analyze config text).diagnostics.filter (·.cause.isMissingOutput) = []].TFAE ∧
    (∀ text front, front <+: (File.parse text).file.assignments →
      ∀ other ∈ (Definitions.ofAssignments front).definitions,
        Identifier.isValid other.toList = true) ∧
    (∀ config text, ∀ other ∈ (analyze config text).definitions,
      Identifier.isValid other.toList = true) ∧
    (Identifier.isValid name.toList = false → ∀ text, ∀ config : Config,
      config.outputVariable = name →
        (analyze config text).diagnostics.filter (·.cause.isMissingOutput) =
          [⟨(File.parse text).file.missingSpan, .missingOutput name⟩]) := by
  refine ⟨?_, fun text front hfront other hother => isValid_of_mem_table hfront hother,
    fun config text other hother => isValid_of_mem_table (List.prefix_refl _) hother, ?_⟩
  · tfae_have 1 → 2 := fun h config hname => validate_eq_ok_iff.2 (hname ▸ h)
    tfae_have 2 → 1 := fun h => validate_eq_ok_iff.1 (h { outputVariable := name } rfl)
    tfae_have 1 → 3 := TokenStream.ofText_word
    tfae_have 3 → 1 := by
      intro h
      have hmem : (⟨.ident name, ⟨{}, Text.finish name.toList⟩⟩ : Token) ∈
          (TokenStream.ofText name.toList).tokens := by
        rw [h]
        exact List.mem_singleton_self _
      obtain ⟨-, -, -, -, hvalid, -⟩ := TokenStream.spelled_of_target? _ hmem rfl
      exact hvalid
    tfae_have 1 → 4 := fun h =>
      ⟨assigning name.toList, { outputVariable := name }, rfl, hasErrors_assigning h⟩
    tfae_have 4 → 5 := fun ⟨text, config, hname, h⟩ =>
      ⟨text, config, hname, filter_isMissingOutput_of_hasErrors h⟩
    tfae_have 5 → 1 := fun ⟨text, config, hname, h⟩ => hname ▸ isValid_of_not_missing h
    tfae_finish
  · rintro hinvalid text config rfl
    rw [filter_isMissingOutput_analyze, File.missingReports, if_neg]
    intro hcontains
    have hvalid := isValid_of_mem_table (List.prefix_refl _)
      (Std.TreeMap.mem_iff_contains.2 hcontains)
    rw [hinvalid] at hvalid
    simp at hvalid

end AssignLang
