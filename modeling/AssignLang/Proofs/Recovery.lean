import AssignLang.Proofs.Parse.Statements
import AssignLang.Proofs.Token.Layout

/-! Recovery is local. Behind a newline the scanner starts afresh, unless a string is left
open, and the parser takes the start of a statement for the end of what comes before: so
two texts put together are read as the one and then, shifted, as the other, whatever is
wrong with either. -/

namespace AssignLang

theorem Lexeme.getLast?_ne_newline {lexeme : Lexeme} {next : Option Char}
    (h : lexeme.Fits next) (hclosed : lexeme.isClosed = true) :
    lexeme.spelling.getLast? ≠ some '\n' := by
  intro hlast
  have hmem := List.mem_of_getLast? hlast
  cases lexeme with
  | word name =>
    cases name with
    | nil => simp [spelling] at hmem
    | cons c cs =>
      have hvalid := h.1
      simp only [Identifier.isValid, Bool.and_eq_true, List.all_eq_true] at hvalid
      rcases List.mem_cons.1 hmem with rfl | hmem
      · exact absurd hvalid.1 (by decide)
      · exact absurd (hvalid.2 _ hmem) (by decide)
  | number digits => exact absurd (h.2.1 _ hmem) (by decide)
  | quoted value closed =>
    obtain rfl : closed = true := hclosed
    simp [spelling, List.getLast?_cons] at hlast
  | assign => simp [spelling] at hmem
  | operator op => cases op <;> simp [spelling, Operator.symbol] at hmem

theorem EndGap.gap_of_newline {u : Bool} {g : Text} (h : EndGap u g)
    (hlast : g.getLast? = some '\n') : Gap u g := by
  cases h with
  | closed h => exact h
  | @opened g line h hline =>
    exfalso
    have hmem : '\n' ∈ '/' :: '/' :: line := by
      rw [List.getLast?_append, List.getLast?_cons, Option.some_or] at hlast
      refine List.mem_of_getLast? ?_
      rw [List.getLast?_cons]
      exact hlast
    simp only [List.mem_cons] at hmem
    rcases hmem with hmem | hmem | hmem
    · exact absurd hmem (by decide)
    · exact absurd hmem (by decide)
    · exact hline hmem

theorem isClosed_of_readingsAt {p : Position} {pieces : List Piece}
    (h : ∀ r ∈ readingsAt p pieces, ∀ d ∈ r.reports, d.cause ≠ .unterminatedString) :
    ∀ piece ∈ pieces, piece.lexeme.isClosed = true := by
  induction pieces generalizing p with
  | nil => simp
  | cons piece more ih =>
    rw [readingsAt, List.forall_mem_cons] at h
    rw [List.forall_mem_cons]
    refine ⟨?_, ih h.2⟩
    cases hlexeme : piece.lexeme with
    | quoted value closed =>
      cases closed with
      | true => rfl
      | false =>
        -- the piece itself would be reported
        rw [hlexeme] at h
        exact absurd rfl (h.1 _ (List.mem_append_right _ (List.mem_singleton_self _)))
    | _ => rfl

/-- A newline at the end of a text lies behind its tokens. -/
theorem Laid.getLast?_closing {pieces : List Piece} {closing : Text} (h : Laid pieces closing)
    (hclosed : ∀ piece ∈ pieces, piece.lexeme.isClosed = true)
    (hlast : (spell pieces closing).getLast? = some '\n') : closing.getLast? = some '\n' := by
  induction pieces with
  | nil => exact hlast
  | cons piece more ih =>
    obtain ⟨-, hfits, hmore⟩ := h
    obtain ⟨hpiece, hclosed⟩ := List.forall_mem_cons.1 hclosed
    rw [spell, List.getLast?_append, List.getLast?_append] at hlast
    cases hbehind : (spell more closing).getLast? with
    | some c =>
      rw [hbehind, Option.some_or, Option.some_or] at hlast
      exact ih hmore hclosed (hbehind.trans hlast)
    | none =>
      -- the newline would be the end of the piece
      exfalso
      obtain ⟨c, hc⟩ := Option.isSome_iff_exists.1
        (List.getLast?_isSome.2 (Lexeme.spelling_ne_nil_of_fits hfits))
      rw [hbehind, Option.none_or, hc, Option.some_or] at hlast
      exact Lexeme.getLast?_ne_newline hfits hpiece (hc.trans hlast)

namespace Position

theorem character_after {text : Text} (p : Position) (h : text.getLast? = some '\n') :
    (p.after text).character = 0 := by
  obtain ⟨init, rfl⟩ := List.getLast?_eq_some_iff.1 h
  rw [after_append]
  rfl

theorem line_after (p : Position) (text : Text) :
    (p.after text).line = p.line + text.count '\n' := by
  induction text generalizing p with
  | nil => simp
  | cons c cs ih =>
    rw [after_cons, ih, advance]
    by_cases hc : c = '\n'
    · simp [hc]; omega
    · simp [hc]

theorem after_eq_behind {text : Text} (h : text.getLast? = some '\n') :
    Position.after {} text = (Relocation.behind text).move {} := by
  have hoffset := offset_after {} text
  have hline := line_after {} text
  have hcharacter := character_after {} h
  simp only [Relocation.behind]
  cases hp : Position.after {} text
  simp_all

theorem behind_after (text : Text) (p : Position) (s : Text) :
    (Relocation.behind text).move (p.after s) = ((Relocation.behind text).move p).after s := by
  induction s generalizing p with
  | nil => rfl
  | cons c cs ih =>
    rw [after_cons, after_cons, ih]
    congr 1
    simp only [Relocation.behind, advance]
    split <;> simp <;> omega

end Position

/-- Behind a newline, the tokens of a text that starts with a word are its own, moved. -/
theorem tokens_append {text more : Text} (hlast : text.getLast? = some '\n')
    (hclosed : ∀ d ∈ (TokenStream.ofText text).reports, d.cause ≠ .unterminatedString)
    (hmore : StartsStatement (TokenStream.ofText more).tokens) :
    (TokenStream.ofText (text ++ more)).tokens = (TokenStream.ofText text).tokens ++
      (TokenStream.ofText more).tokens.map (Token.relocate (.behind text)) := by
  obtain ⟨pieces, closing, rfl, hlaid⟩ := exists_laid text
  obtain ⟨others, closing', rfl, hothers⟩ := exists_laid more
  rw [TokenStream.ofText_laid hlaid] at hclosed
  have hpieces : ∀ piece ∈ pieces, piece.lexeme.isClosed = true :=
    isClosed_of_readingsAt fun r hr d hd =>
      hclosed d (List.mem_append_left _ (List.mem_flatMap.2 ⟨r, hr, hd⟩))
  have hnewline := hlaid.getLast?_closing hpieces hlast
  obtain ⟨u, hgap⟩ : ∃ u, Gap u closing := by
    obtain ⟨u, hend⟩ := hlaid.endGap
    exact ⟨u, hend.gap_of_newline hnewline⟩
  have hword : assignNext others = false := by
    rw [TokenStream.tokens_laid hothers] at hmore
    apply assignNext_of_head (p := {})
    intro t ht
    rw [hmore t ht]
    simp
  rw [← List.append_nil pieces] at hlaid
  have hseam : ∀ piece ∈ pieces.getLast?,
      piece.lexeme.Fits (closing ++ spell others closing').head? := by
    obtain ⟨c, cs, rfl⟩ := List.exists_cons_of_ne_nil
      (List.getLast?_isSome.1 (hnewline ▸ rfl : closing.getLast?.isSome = true))
    exact hlaid.fits_getLast
  obtain ⟨all, last, hspell, hall, htokens, -⟩ :=
    hlaid.append hgap hothers hword (by simp [hnewline]) hseam
  rw [List.append_nil] at hlaid
  rw [← hspell, TokenStream.tokens_laid hall, htokens, TokenStream.tokens_laid hlaid,
    TokenStream.tokens_laid hothers]
  congr 1
  have hmove := tokensAt_relocate (f := .stay) (g := .behind (spell pieces closing))
    (p := Position.after {} (spell pieces closing)) (q := {}) others ?_
  · simpa using hmove
  · intro s
    rw [Position.behind_after, ← Position.after_eq_behind hlast]
    rfl

/-- Whatever is wrong with either, two texts are parsed one after the other. -/
theorem parse_append (text more : Text) (hlast : text.getLast? = some '\n')
    (hclosed : ∀ d ∈ (TokenStream.ofText text).reports, d.cause ≠ .unterminatedString)
    (hmore : ∃ t, (TokenStream.ofText more).tokens.head? = some t ∧ t.kind = .leadingIdent) :
    (File.parse (text ++ more)).file.assignments =
        (File.parse text).file.assignments ++
          (File.parse more).file.assignments.map (Assignment.relocate (.behind text)) ∧
      ((File.parse (text ++ more)).reports.filter (·.cause.isExpectation)).length =
        ((File.parse text).reports.filter (·.cause.isExpectation)).length +
          ((File.parse more).reports.filter (·.cause.isExpectation)).length := by
  have hstarts : StartsStatement (TokenStream.ofText more).tokens := by
    obtain ⟨t, ht, hkind⟩ := hmore
    intro t' ht'
    rw [ht] at ht'
    rwa [← Option.some.inj ht']
  obtain ⟨hread, hfaults⟩ :=
    read_append (TokenStream.ofText text).tokens
      (startsStatement_relocate (f := .behind text).2 hstarts)
  rw [← tokens_append hlast hclosed hstarts] at hread hfaults
  rw [(File.read_parse (text ++ more)).1, (File.read_parse (text ++ more)).2,
    (File.read_parse text).1, (File.read_parse text).2, (File.read_parse more).1,
    (File.read_parse more).2]
  exact ⟨by rw [hread, readStatements_relocate], by rw [hfaults, faults_relocate]⟩

theorem parse_append_broken :
    (File.parse "a := 1 +\nb := a".toList).file.assignments =
        (File.parse "a := 1 +\n".toList).file.assignments ++
          (File.parse "b := a".toList).file.assignments.map
            (Assignment.relocate (.behind "a := 1 +\n".toList)) ∧
      ((File.parse "a := 1 +\nb := a".toList).reports.filter (·.cause.isExpectation)).length =
        ((File.parse "a := 1 +\n".toList).reports.filter (·.cause.isExpectation)).length +
          ((File.parse "b := a".toList).reports.filter (·.cause.isExpectation)).length :=
  parse_append "a := 1 +\n".toList "b := a".toList (by decide) (by decide +kernel)
    ⟨⟨.leadingIdent "b", ⟨{}, ⟨1, 0, 1⟩⟩⟩, by decide +kernel, rfl⟩

end AssignLang
