import AssignLang.Proofs.Parse.Frame

/-! The assignments of a text are a function of its tokens: reading them does not depend
on what the scanner reported, commutes with moving the tokens elsewhere, and splits at
every start of a statement. The same holds for the number of complaints. -/

namespace AssignLang

namespace ParseState

/-- The state in front of tokens on which the scanner has nothing to report. -/
def ofTokens (ts : List Token) : ParseState := ⟨ts.map (⟨·, []⟩), {}, [], []⟩

theorem tokens_ofTokens (ts : List Token) : (ofTokens ts).tokens = ts := by
  simp [tokens, ofTokens, Function.comp_def]

theorem scanned_ofTokens (ts : List Token) : (ofTokens ts).Scanned := by
  constructor <;> simp [ofTokens]

end ParseState

def readStatements (ts : List Token) : List Assignment :=
  ((ParseState.ofTokens ts).statements []).1

/-- How often reading a list of tokens fails to find what it wants. -/
def faults (ts : List Token) : Nat := ((ParseState.ofTokens ts).statements []).2.rejections.length

open ParseState in
/-- Every state in front of the same tokens, moved elsewhere, reads the same. -/
theorem statements_of_tokens (f : Relocation) {ts : List Token} {t : ParseState}
    (ht : t.Scanned) (htokens : t.tokens = ts.map (Token.relocate f)) (passed : List Assignment) :
    (t.statements passed).1 =
        passed.reverse ++ (readStatements ts).map (Assignment.relocate f) ∧
      (t.statements passed).2.rejections.length = t.rejections.length + faults ts := by
  have hframe : Framed f [] t.rejections.length (ofTokens ts) t := by
    refine ⟨?_, ?_, scanned_ofTokens ts, ht⟩
    · rw [htokens, tokens_ofTokens, List.append_nil]
    · simp [rejections, ofTokens]
  obtain ⟨u, hu, -, hcount, heq⟩ := hframe.statements (by simp [StartsStatement]) []
  have hnil : u.ahead = [] := by simpa [tokens] using hu
  rw [List.map_nil, statements_nil hnil, List.reverse_reverse] at heq
  have happ := t.statements_append passed []
  rw [List.nil_append, heq] at happ
  rw [happ]
  exact ⟨rfl, by rw [hcount, Nat.add_comm]; rfl⟩

theorem readStatements_relocate (f : Relocation) (ts : List Token) :
    readStatements (ts.map (Token.relocate f)) =
      (readStatements ts).map (Assignment.relocate f) := by
  exact (statements_of_tokens f (ParseState.scanned_ofTokens _)
    (ParseState.tokens_ofTokens (ts.map (Token.relocate f))) []).1

theorem faults_relocate (f : Relocation) (ts : List Token) :
    faults (ts.map (Token.relocate f)) = faults ts := by
  have h := (statements_of_tokens f (ParseState.scanned_ofTokens _)
    (ParseState.tokens_ofTokens (ts.map (Token.relocate f))) []).2
  rwa [show (ParseState.ofTokens (ts.map (Token.relocate f))).rejections.length = 0 from rfl,
    Nat.zero_add] at h

open ParseState in
theorem read_append (ts : List Token) {us : List Token} (h : StartsStatement us) :
    readStatements (ts ++ us) = readStatements ts ++ readStatements us ∧
      faults (ts ++ us) = faults ts + faults us := by
  have hframe : Framed .stay us 0 (ofTokens ts) (ofTokens (ts ++ us)) := by
    refine ⟨?_, rfl, scanned_ofTokens ts, scanned_ofTokens _⟩
    simp [tokens_ofTokens]
  obtain ⟨u, hu, hscanned, hcount, heq⟩ := hframe.statements h []
  have htokens : u.tokens = us.map (Token.relocate .stay) := by simp [hu]
  have hread := statements_of_tokens .stay hscanned htokens
    (((ofTokens ts).statements []).1.map (Assignment.relocate .stay)).reverse
  rw [← heq] at hread
  constructor
  · simpa [readStatements] using hread.1
  · rw [hcount] at hread
    exact hread.2

theorem Cursor.lexical_of_nextFrom (run : Option Span) (c : Cursor) :
    (∀ r next, c.nextFrom run = .token r next → ∀ d ∈ r.reports, d.cause.isLexical = true) ∧
      ∀ p reports, c.nextFrom run = .finish p reports →
        ∀ d ∈ reports, d.cause.isLexical = true := by
  have hrun : ∀ run d, d ∈ unknownReports run → d.cause.isLexical = true := by
    intro run d hd
    obtain ⟨span, -, rfl⟩ := List.mem_map.1 hd
    rfl
  fun_induction Cursor.nextFrom run c with
  | case1 run c p hc =>
    refine ⟨fun r next h => by simp at h, fun q reports h d hd => ?_⟩
    obtain ⟨-, rfl⟩ := Step.finish.inj h
    exact hrun run d hd
  | case2 run c p ch cs hc lexeme rest hread span =>
    refine ⟨fun r next h d hd => ?_, fun q reports h => by simp at h⟩
    obtain ⟨rfl, -⟩ := Step.token.inj h
    rcases List.mem_append.1 hd with hd | hd
    · exact hrun run d hd
    · unfold Lexeme.reports at hd
      split at hd
      · rw [List.mem_singleton.1 hd]; rfl
      · simp at hd
  | case3 run c p ch cs hc hread ih => exact ih

theorem TokenStream.lexical_of_collect (passed : List Reading) (c : Cursor)
    (h : ∀ r ∈ passed, ∀ d ∈ r.reports, d.cause.isLexical = true) :
    (∀ r ∈ (collect passed c).readings, ∀ d ∈ r.reports, d.cause.isLexical = true) ∧
      ∀ d ∈ (collect passed c).closing, d.cause.isLexical = true := by
  fun_induction collect passed c with
  | case1 passed c p reports hnext =>
    exact ⟨fun r hr => h r (List.mem_reverse.1 hr),
      (c.lexical_of_nextFrom none).2 p reports hnext⟩
  | case2 passed c r next hnext ih =>
    refine ih fun r' hr' => ?_
    rcases List.mem_cons.1 hr' with rfl | hr'
    · exact (c.lexical_of_nextFrom none).1 _ next hnext
    · exact h r' hr'

namespace ParseState

theorem scanned_ofText (text : Text) : (ofStream (.ofText text)).Scanned := by
  have h := TokenStream.lexical_of_collect [] { rest := text } (by simp)
  exact Scanned.arrive ⟨h.1, h.2⟩

theorem tokens_ofStream (stream : TokenStream) : (ofStream stream).tokens = stream.tokens := by
  simp [tokens, ofStream, TokenStream.tokens]

theorem lexical_ofText (text : Text) :
    (ofStream (.ofText text)).lexical = (TokenStream.ofText text).reports := by
  have h := TokenStream.lexical_of_collect [] { rest := text } (by simp)
  have hall : ∀ d ∈ (TokenStream.ofText text).reports, d.cause.isLexical = true := by
    intro d hd
    rcases List.mem_append.1 hd with hd | hd
    · obtain ⟨r, hr, hd⟩ := List.mem_flatMap.1 hd
      exact h.1 r hr d hd
    · exact h.2 d hd
  rw [← List.filter_eq_self.2 hall]
  unfold lexical pending ofStream arrive TokenStream.reports
  cases (TokenStream.ofText text).readings <;> simp

theorem rejections_ofText (text : Text) : (ofStream (.ofText text)).rejections = [] := by
  have h := TokenStream.lexical_of_collect [] { rest := text } (by simp)
  exact rejections_arrive ⟨h.1, h.2⟩

end ParseState

namespace File

theorem read_parse (text : Text) :
    (parse text).file.assignments = readStatements (TokenStream.ofText text).tokens ∧
      ((parse text).reports.filter (·.cause.isExpectation)).length =
        faults (TokenStream.ofText text).tokens := by
  have htokens : (ParseState.ofStream (.ofText text)).tokens =
      (TokenStream.ofText text).tokens.map (Token.relocate .stay) := by
    simp [ParseState.tokens_ofStream]
  have h := statements_of_tokens .stay (ParseState.scanned_ofText text) htokens []
  constructor
  · simpa [parse] using h.1
  · rw [ParseState.rejections_ofText, List.length_nil, Nat.zero_add] at h
    simpa [parse, List.filter_reverse, ParseState.rejections] using h.2

theorem lexical_parse (text : Text) :
    (parse text).reports.filter (·.cause.isLexical) = (TokenStream.ofText text).reports := by
  have h := (ParseState.moves_statements [] (.ofStream (.ofText text))).lexical_eq
  rw [ParseState.lexical_ofText, ParseState.lexical, ParseState.pending,
    ParseState.ahead_statements, List.append_nil] at h
  exact h

theorem cause_of_mem_reports {text : Text} {d : Diagnostic} (h : d ∈ (parse text).reports) :
    d.cause.isLexical = true ∨ d.cause.isExpectation = true := by
  have hlogged : (ParseState.ofStream (.ofText text)).Logged := by
    have hscan := TokenStream.lexical_of_collect [] { rest := text } (by simp)
    exact ParseState.Logged.arrive (by simp [ParseState.Logged]) ⟨hscan.1, hscan.2⟩
  have hmoves := ParseState.moves_statements [] (.ofStream (.ofText text))
  exact hmoves.logged (ParseState.scanned_ofText text) hlogged d (List.mem_reverse.1 h)

/-- A parse reports what the scanner reports and where it fails to find what it wants. -/
theorem reports_parse_eq_nil_iff (text : Text) : (parse text).reports = [] ↔
    (TokenStream.ofText text).reports = [] ∧ faults (TokenStream.ofText text).tokens = 0 := by
  rw [← lexical_parse, ← (read_parse text).2, List.length_eq_zero_iff, List.filter_eq_nil_iff,
    List.filter_eq_nil_iff]
  constructor
  · intro h
    rw [h]
    simp
  · rintro ⟨hlexical, hexpectation⟩
    rw [List.eq_nil_iff_forall_not_mem]
    intro d hd
    rcases cause_of_mem_reports hd with hcause | hcause
    · exact hlexical d hd hcause
    · exact hexpectation d hd hcause

end File

end AssignLang
