import AssignLang.Proofs.Parse.Relocated
import AssignLang.Proofs.Scoping

/-! Layout. Blanks and comments put in before a token, from a blank on, only make the gap
there longer: they neither prolong what stands before them nor part an unknown run from its
token. So the token stream is the same apart from its points, and with it everything that an
analysis says. -/

namespace AssignLang

/-- What is said about a place, without the place. -/
def Diagnostic.wording (d : Diagnostic) : Severity × String × Option String :=
  (d.severity, d.notice.message, d.notice.code?)

/-- Apart from spans, an analysis says the same about both texts. -/
structure SaysTheSame (config : Config) (text other : Text) : Prop where
  terminals : (TokenStream.ofText other).tokens.map Token.terminal =
    (TokenStream.ofText text).tokens.map Token.terminal
  tree : (File.parse other).file.relocate .forget = (File.parse text).file.relocate .forget
  diagnostics : (analyze config other).diagnostics.map Diagnostic.wording =
    (analyze config text).diagnostics.map Diagnostic.wording
  definitions : ∀ name : String,
    (analyze config other).definitions[name]?.map (Definition.relocate .forget) =
      (analyze config text).definitions[name]?.map (Definition.relocate .forget)

theorem wording_of_cause {ds ds' : List Diagnostic}
    (h : ds.map Diagnostic.cause = ds'.map Diagnostic.cause) :
    ds.map Diagnostic.wording = ds'.map Diagnostic.wording := by
  have hcause := congrArg (List.map fun c : Cause => (c.severity, c.message, c.code?)) h
  rwa [List.map_map, List.map_map] at hcause

theorem cause_of_relocate {f : Relocation} {ds ds' : List Diagnostic}
    (h : ds.map (Diagnostic.relocate f) = ds'.map (Diagnostic.relocate f)) :
    ds.map Diagnostic.cause = ds'.map Diagnostic.cause := by
  have hcause := congrArg (List.map Diagnostic.cause) h
  rwa [List.map_map, List.map_map] at hcause

namespace Definitions

variable {as bs : List Assignment}

theorem getElem?_table_of_forget
    (h : as.map (Assignment.relocate .forget) = bs.map (Assignment.relocate .forget))
    (name : String) : (table as)[name]?.map (Definition.relocate .forget) =
      (table bs)[name]?.map (Definition.relocate .forget) := by
  rw [← getElem?_table_relocate, h, getElem?_table_relocate]

theorem countP_isIdle {f : Relocation} {defs defs' : Definitions}
    (h : ∀ name : String, defs[name]?.map (Definition.relocate f) =
      defs'[name]?.map (Definition.relocate f)) (output : String) :
    defs.toList.countP (Definition.isIdle output) =
      defs'.toList.countP (Definition.isIdle output) := by
  have hcount : ∀ table : Definitions,
      (table.map fun _ d => d.relocate f).toList.countP (Definition.isIdle output) =
        table.toList.countP (Definition.isIdle output) := by
    intro table
    rw [Std.TreeMap.toList_map, List.countP_map]
    rfl
  have hequiv : (defs.map fun _ d => d.relocate f).Equiv
      (defs'.map fun _ d => d.relocate f) := by
    refine .of_forall_constGet?_eq fun name => ?_
    rw [Std.TreeMap.getElem?_map, Std.TreeMap.getElem?_map]
    exact h name
  rw [← hcount, hequiv.toList_eq, hcount]

end Definitions

open Definitions

namespace File

variable {config : Config}

/-- All hints say the same, so only their number matters. -/
theorem cause_unusedReports (config : Config) (defs : Definitions) :
    (unusedReports config defs).map Diagnostic.cause =
      if config.reportUnused then
        List.replicate (defs.toList.countP (Definition.isIdle config.outputVariable))
          .unusedDefinition
      else [] := by
  rw [unusedReports]
  cases config.reportUnused with
  | false => rfl
  | true =>
    have hlength := (perm_unusedSpans config.outputVariable defs.toList).length_eq
    rw [List.length_map, ← List.countP_eq_length_filter] at hlength
    rw [if_pos rfl, if_pos rfl, List.map_map, ← hlength]
    exact List.map_const'

theorem cause_missingReports (config : Config) (file : File) (defs : Definitions) :
    (file.missingReports config defs).map Diagnostic.cause =
      if defs[config.outputVariable]?.isSome then [] else
        [.missingOutput config.outputVariable] := by
  rw [missingReports, Std.TreeMap.contains_eq_isSome_getElem?]
  split <;> rfl

theorem reports_check (file : File) : (file.check config).reports =
    tableComplaints file.assignments ++ file.missingReports config (table file.assignments) ++
      unusedReports config (table file.assignments) := rfl

theorem cause_check {file other : File} (h : file.relocate .forget = other.relocate .forget) :
    (file.check config).reports.map Diagnostic.cause =
      (other.check config).reports.map Diagnostic.cause := by
  have hassignments : file.assignments.map (Assignment.relocate .forget) =
      other.assignments.map (Assignment.relocate .forget) := (File.mk.inj h).2
  have htable := getElem?_table_of_forget hassignments
  have hcomplaints : (tableComplaints file.assignments).map Diagnostic.cause =
      (tableComplaints other.assignments).map Diagnostic.cause := by
    apply cause_of_relocate (f := .forget)
    rw [← tableComplaints_relocate, hassignments, tableComplaints_relocate]
  have hmissing := congrArg Option.isSome (htable config.outputVariable)
  rw [Option.isSome_map, Option.isSome_map] at hmissing
  rw [reports_check, reports_check, List.map_append, List.map_append, List.map_append,
    List.map_append, hcomplaints, cause_missingReports, cause_missingReports, hmissing,
    cause_unusedReports, cause_unusedReports, countP_isIdle htable]

end File

theorem saysTheSame_of_stream (config : Config) {text other : Text}
    (h : (TokenStream.ofText other).relocate .forget =
      (TokenStream.ofText text).relocate .forget) : SaysTheSame config text other := by
  obtain ⟨hfile, hreports⟩ := File.parse_relocate .forget h
  refine ⟨?_, hfile, ?_, ?_⟩
  · have hreadings := congrArg (List.map fun r : Reading => r.token.terminal)
      (TokenStream.mk.inj h).1
    rw [List.map_map, List.map_map] at hreadings
    rw [TokenStream.tokens, TokenStream.tokens, List.map_map, List.map_map]
    exact hreadings
  · apply wording_of_cause
    simp only [analyze, List.map_append, cause_of_relocate hreports, File.cause_check hfile]
  · exact getElem?_table_of_forget (File.mk.inj hfile).2

/-- What a piece adds to the token stream, apart from its place. -/
def Piece.content (piece : Piece) : Bool × Lexeme := (piece.unknown, piece.lexeme)

theorem unknownReports_forget {run run' : Option Span} (h : run.isSome = run'.isSome) :
    (unknownReports run).map (Diagnostic.relocate .forget) =
      (unknownReports run').map (Diagnostic.relocate .forget) := by
  cases run with
  | none =>
    obtain rfl : run' = none := by simpa using h.symm
    rfl
  | some span =>
    obtain ⟨span', rfl⟩ := Option.isSome_iff_exists.1 h.symm
    rfl

theorem Lexeme.reports_relocate (f : Relocation) (lexeme : Lexeme) (span : Span) :
    (lexeme.reports span).map (Diagnostic.relocate f) = lexeme.reports (span.relocate f) := by
  cases lexeme with
  | quoted value closed => cases closed <;> rfl
  | _ => rfl

theorem assignNext_of_content {pieces other : List Piece}
    (h : pieces.map Piece.content = other.map Piece.content) :
    assignNext pieces = assignNext other := by
  cases pieces with
  | nil =>
    rw [List.map_nil, eq_comm, List.map_eq_nil_iff] at h
    rw [h]
  | cons piece more =>
    obtain ⟨piece', more', rfl, hpiece, -⟩ := List.map_eq_cons_iff.1 h.symm
    obtain ⟨hunknown, hlexeme⟩ := Prod.mk.inj hpiece
    simp [assignNext, hunknown, hlexeme]

theorem readingsAt_forget {pieces other : List Piece} {closing closing' : Text}
    (h : Laid pieces closing) (h' : Laid other closing')
    (hcontent : pieces.map Piece.content = other.map Piece.content) (p q : Position) :
    (readingsAt p pieces).map (Reading.relocate .forget) =
      (readingsAt q other).map (Reading.relocate .forget) := by
  induction pieces generalizing other p q with
  | nil =>
    rw [List.map_nil, eq_comm, List.map_eq_nil_iff] at hcontent
    rw [hcontent]
    rfl
  | cons piece more ih =>
    obtain ⟨piece', more', rfl, hpiece, hmore⟩ := List.map_eq_cons_iff.1 hcontent.symm
    obtain ⟨hunknown, hlexeme⟩ := Prod.mk.inj hpiece
    obtain ⟨hgap, -, hlaid⟩ := h
    obtain ⟨hgap', -, hlaid'⟩ := h'
    have hruns : (gapRun false none p piece.gap).isSome =
        (gapRun false none q piece'.gap).isSome := by
      rw [gapRun_isSome hgap, gapRun_isSome hgap', hunknown]
    have hreports := unknownReports_forget hruns
    rw [readingsAt, readingsAt, List.map_cons, List.map_cons, ih hlaid hlaid' hmore.symm,
      assignNext_of_content hmore, hlexeme]
    simp only [Reading.relocate, List.map_append, hreports, Lexeme.reports_relocate]
    rfl

theorem TokenStream.ofText_forget {pieces other : List Piece} {closing : Text}
    (h : Laid pieces closing) (h' : Laid other closing)
    (hcontent : pieces.map Piece.content = other.map Piece.content) :
    (ofText (spell pieces closing)).relocate .forget =
      (ofText (spell other closing)).relocate .forget := by
  obtain ⟨u, hend⟩ := h.endGap
  have hclosing := unknownReports_forget
    ((gapRun_isSome_end (p := Position.after {} (spell pieces [])) hend).trans
      (gapRun_isSome_end (p := Position.after {} (spell other [])) hend).symm)
  rw [ofText_laid h, ofText_laid h', relocate, relocate, readingsAt_forget h h' hcontent, hclosing]
  rfl

theorem Lexeme.Fits.of_blank {lexeme : Lexeme} {c d : Char} (h : lexeme.Fits (some c))
    (hd : Text.isWhitespace d = true) : lexeme.Fits (some d) := by
  have hpart : Identifier.isPart d = false :=
    Identifier.isPart_eq_false_of_read? (read?_eq_none_of_isWhitespace hd)
  cases lexeme with
  | word name => exact ⟨h.1, by simpa using hpart⟩
  | number digits =>
    refine ⟨h.1, h.2.1, ?_⟩
    intro e he
    obtain rfl := Option.some.inj he
    rw [Bool.eq_false_iff]
    intro hdigit
    rw [Identifier.isPart_iff.2 (.inr hdigit)] at hpart
    simp at hpart
  | quoted value closed => exact ⟨h.1, fun hopen => by simpa using h.2 hopen⟩
  | assign => trivial
  | operator op =>
    rintro - heq
    rw [Option.some.inj heq] at hd
    exact absurd hd (by decide)

/-- The gap before a piece can be made longer, if what is added starts with a blank. -/
theorem Laid.insert {before after : List Piece} {gap closing w : Text} {u : Bool}
    {lexeme : Lexeme} (h : Laid (before ++ ⟨gap, u, lexeme⟩ :: after) closing)
    (hw : Gap false w) (hblank : ∃ c ∈ w.head?, Text.isWhitespace c = true) :
    Laid (before ++ ⟨gap ++ w, u, lexeme⟩ :: after) closing := by
  obtain ⟨c, hc, hblank⟩ := hblank
  obtain ⟨hgap, hfits, hafter⟩ := h.drop
  have hlonger : Gap u (gap ++ w) := by
    have happend := hgap.append hw fun _ _ hequals => by
      obtain rfl := Option.some.inj (hc.symm.trans hequals)
      exact absurd hblank (by decide)
    rwa [Bool.or_false] at happend
  refine h.replace ⟨hlonger, hfits, hafter⟩ fun last hlast => ?_
  have hlastFits := h.fits_getLast last hlast
  rw [spell] at hlastFits ⊢
  cases gap with
  | cons d ds => exact hlastFits
  | nil =>
    -- the blank takes the place of the first character of the lexeme
    obtain ⟨d, ds, hspelling⟩ :=
      List.exists_cons_of_ne_nil (Lexeme.spelling_ne_nil_of_fits hfits)
    obtain ⟨cs, rfl⟩ := List.head?_eq_some_iff.1 hc
    rw [hspelling] at hlastFits
    exact Lexeme.Fits.of_blank (c := d) hlastFits hblank

/-- Blanks and comments put in before a token, from a blank on, change nothing but spans. -/
theorem saysTheSame_insert (config : Config) (text : Text) (t : Token)
    (ht : t ∈ (TokenStream.ofText text).tokens) (w : Text) (hw : Gap false w)
    (hblank : ∃ c ∈ w.head?, Text.isWhitespace c = true) :
    ∃ edited, text.replace? t.span.start.offset t.span.start.offset w = some edited ∧
      SaysTheSame config text edited := by
  obtain ⟨pieces, closing, rfl, hlaid⟩ := exists_laid text
  rw [TokenStream.tokens_laid hlaid] at ht
  obtain ⟨before, ⟨gap, u, lexeme⟩, after, rfl, rfl⟩ := exists_piece ht
  have hsame := TokenStream.ofText_forget (hlaid.insert hw hblank) hlaid (by simp [Piece.content])
  refine ⟨_, ?_, saysTheSame_of_stream config hsame⟩
  have htext : spell (before ++ ⟨gap, u, lexeme⟩ :: after) closing =
      spell before gap ++ ([] ++ (lexeme.spelling ++ spell after closing)) := by
    rw [spell_append, spell, spell_split before gap]
    simp
  have hedited : spell (before ++ ⟨gap ++ w, u, lexeme⟩ :: after) closing =
      spell before gap ++ w ++ (lexeme.spelling ++ spell after closing) := by
    rw [spell_append, spell, spell_split before gap]
    simp
  have hoffset : (Position.after {} (spell before gap)).offset = (spell before gap).size := by
    simp
  rw [htext, hedited, hoffset]
  exact Text.replace?_append (spell before gap) [] _ w

/-- A blank and a comment between an unknown character and the `/` behind it. -/
theorem saysTheSame_insert_comment :
    (⟨.operator .divide, ⟨⟨5, 0, 5⟩, ⟨6, 0, 6⟩⟩⟩ : Token) ∈
        (TokenStream.ofText "a:=1@/2".toList).tokens ∧
      Gap false " //=\n".toList ∧ (∃ c ∈ " //=\n".toList.head?, Text.isWhitespace c = true) ∧
      ∃ edited, Text.replace? "a:=1@/2".toList 5 5 " //=\n".toList = some edited ∧
        SaysTheSame {} "a:=1@/2".toList edited := by
  have ht : (⟨.operator .divide, ⟨⟨5, 0, 5⟩, ⟨6, 0, 6⟩⟩⟩ : Token) ∈
      (TokenStream.ofText "a:=1@/2".toList).tokens := by decide +kernel
  have hw : Gap false " //=\n".toList :=
    .blank (by decide) (.comment (show '\n' ∉ ['='] by decide) .nil)
  have hblank : ∃ c ∈ " //=\n".toList.head?, Text.isWhitespace c = true :=
    ⟨' ', rfl, by decide⟩
  exact ⟨ht, hw, hblank, saysTheSame_insert {} _ _ ht _ hw hblank⟩

end AssignLang
