import AssignLang.Proofs.Spans
import AssignLang.Text.Locate

/-! The scanner loses nothing and reads as much as it can. A text is tiled by its tokens
and the gaps before, between and behind them. A token covers exactly its spelling, which
cannot be prolonged, and a gap is made of blanks, comments and characters at which no
token starts. The reports are one for each gap with such characters, over all of them,
and one for a string that the text ends in. -/

namespace AssignLang

/-- What can stand between tokens. The newline behind a comment is a blank. -/
inductive Filler where
  | blank (c : Char)
  | comment (line : Text)
  | unknown (c : Char)
deriving DecidableEq, Repr

namespace Filler

def spelling : Filler → Text
  | .blank c => [c]
  | .comment line => '/' :: '/' :: line
  | .unknown c => [c]

/-- The filler is what its spelling is taken for, with `next` behind it. -/
def Stands (next : Option Char) : Filler → Prop
  | .blank c => Text.isWhitespace c = true
  | .comment line => '\n' ∉ line ∧ ∀ c ∈ next, c = '\n'
  | .unknown c => Text.isWhitespace c = false ∧ Identifier.isPart c = false ∧ c ≠ '"' ∧
      (∀ op : Operator, c ≠ op.symbol) ∧ ¬ (c = ':' ∧ next = some '=')

def text (fillers : List Filler) : Text := fillers.flatMap spelling

/-- All fillers are what they are taken for, with `rest` behind them. -/
def Fill (rest : Text) : List Filler → Prop
  | [] => True
  | filler :: more => filler.Stands (text more ++ rest).head? ∧ Fill rest more

def unknownSpans (p : Position) : List Filler → List Span
  | [] => []
  | .unknown c :: more => ⟨p, p.advance c⟩ :: unknownSpans (p.advance c) more
  | .blank c :: more => unknownSpans (p.advance c) more
  | .comment line :: more => unknownSpans (p.after ('/' :: '/' :: line)) more

/-- The one report on the unknown characters, from the first to the last, if there are any. -/
def reports (p : Position) (fillers : List Filler) : List Diagnostic :=
  match unknownSpans p fillers with
  | [] => []
  | first :: more => [⟨⟨first.start, (more.getLastD first).stop⟩, .unknownCharacters⟩]

@[simp] theorem text_nil : text [] = [] := rfl

@[simp] theorem text_cons (filler : Filler) (more : List Filler) :
    text (filler :: more) = filler.spelling ++ text more := List.flatMap_cons

end Filler

/-- The terminal is spelled so, and what is behind does not prolong it. -/
def Terminal.Spelled (spelling behind : Text) : Terminal → Prop
  | .ident name | .leadingIdent name => spelling = name.toList ∧
      Identifier.isValid spelling = true ∧ ∀ c ∈ behind.head?, Identifier.isPart c = false
  | .integer digits => spelling = digits.toList ∧ spelling ≠ [] ∧
      (∀ c ∈ spelling, c.isDigit = true) ∧ ∀ c ∈ behind.head?, c.isDigit = false
  | .string value => '"' ∉ value.toList ∧ (spelling = '"' :: (value.toList ++ ['"']) ∨
      spelling = '"' :: value.toList ∧ behind = [])
  | .assign => spelling = [':', '=']
  | .operator op => spelling = [op.symbol] ∧ (op = .divide → behind.head? ≠ some '/')

/-- The token is a string that is spelled without a closing quote. -/
def Token.IsOpen (spelling : Text) (t : Token) : Prop :=
  ∃ value, t.terminal = .string value ∧ spelling = '"' :: value.toList

def Token.openReports (spelling : Text) (t : Token) : List Diagnostic :=
  match t.terminal with
  | .string value =>
    if spelling = '"' :: value.toList then [⟨t.span, .unterminatedString⟩] else []
  | _ => []

/-- From `p` on the text is tiled by gaps and tokens. Each token comes with the report on
the gap before it and the one on itself; `closing` is reported behind the last. -/
inductive Tiled : Position → Text → List Reading → List Diagnostic → Prop
  | finish {p : Position} {gap : List Filler} (hgap : Filler.Fill [] gap) :
      Tiled p (Filler.text gap) [] (Filler.reports p gap)
  | token {p : Position} {gap : List Filler} {t : Token} {spelling rest : Text}
      {readings : List Reading} {closing : List Diagnostic}
      (hgap : Filler.Fill (spelling ++ rest) gap)
      (hspan : t.span = ⟨p.after (Filler.text gap), (p.after (Filler.text gap)).after spelling⟩)
      (hspelled : t.terminal.Spelled spelling rest)
      (hmore : Tiled t.span.stop rest readings closing) :
      Tiled p (Filler.text gap ++ (spelling ++ rest))
        (⟨t, Filler.reports p gap ++ t.openReports spelling⟩ :: readings) closing

theorem Text.unknown_of_isUnknown {c : Char} (h : isUnknown c = true) :
    isWhitespace c = false ∧ Identifier.isPart c = false ∧ c ≠ '"' ∧
      ∀ op : Operator, c ≠ op.symbol := by
  simp only [isUnknown, Bool.and_eq_true, Bool.not_eq_true', Option.isNone_iff_eq_none] at h
  obtain ⟨hblank, hread⟩ := h
  refine ⟨hblank, Identifier.isPart_eq_false_of_read? hread, ?_, ?_⟩
  · rintro rfl
    exact absurd hread (by decide)
  · rintro op rfl
    cases op <;> exact absurd hread (by decide)

theorem Filler.pairwise_unknownSpans (p : Position) (fillers : List Filler) :
    (unknownSpans p fillers).Pairwise Span.Precedes ∧
      ∀ s ∈ unknownSpans p fillers, p.offset ≤ s.start.offset ∧ p.offset ≤ s.stop.offset := by
  induction fillers generalizing p with
  | nil => exact ⟨List.Pairwise.nil, by simp [unknownSpans]⟩
  | cons filler more ih =>
    have later : ∀ q : Position, p.offset ≤ q.offset → ∀ s ∈ unknownSpans q more,
        p.offset ≤ s.start.offset ∧ p.offset ≤ s.stop.offset := by
      intro q hq s hs
      have := (ih q).2 s hs
      omega
    cases filler with
    | blank c => exact ⟨(ih _).1, later _ (by simp)⟩
    | comment line => exact ⟨(ih _).1, later _ (by rw [Position.offset_after]; omega)⟩
    | unknown c =>
      refine ⟨List.pairwise_cons.2 ⟨fun s hs => ?_, (ih _).1⟩, ?_⟩
      · have hs' := (ih _).2 s hs
        have hp := later (p.advance c) (by simp) s hs
        exact ⟨hp.1, hs'.2⟩
      · rw [unknownSpans, List.forall_mem_cons]
        exact ⟨by simp, later _ (by simp)⟩

theorem Filler.reports_eq (p : Position) (fillers : List Filler) :
    unknownReports (Span.cover (unknownSpans p fillers)) = reports p fillers := by
  have hpairwise := (pairwise_unknownSpans p fillers).1
  rw [reports]
  cases hspans : unknownSpans p fillers with
  | nil => rfl
  | cons first more =>
    rw [hspans] at hpairwise
    rw [Span.cover_cons hpairwise]
    rfl

theorem Filler.text_append (xs ys : List Filler) : text (xs ++ ys) = text xs ++ text ys :=
  List.flatMap_append

theorem Filler.fill_append {xs ys : List Filler} {rest : Text} (hxs : Fill (text ys ++ rest) xs)
    (hys : Fill rest ys) : Fill rest (xs ++ ys) := by
  induction xs with
  | nil => exact hys
  | cons filler xs ih =>
    obtain ⟨hstands, hxs⟩ := hxs
    rw [← List.append_assoc, ← text_append] at hstands
    exact ⟨hstands, ih hxs⟩

theorem Filler.unknownSpans_append (p : Position) (xs ys : List Filler) :
    unknownSpans p (xs ++ ys) = unknownSpans p xs ++ unknownSpans (p.after (text xs)) ys := by
  induction xs generalizing p with
  | nil => rfl
  | cons filler xs ih =>
    cases filler with
    | blank c => simp [unknownSpans, ih, spelling]
    | comment line => simp [unknownSpans, ih, spelling]
    | unknown c => simp [unknownSpans, ih, spelling]

theorem Gap.exists_fillers {u : Bool} {g : Text} (h : Gap u g) (rest : Text)
    (hrest : rest.head? ≠ some '=') :
    ∃ fillers, g = Filler.text fillers ∧ Filler.Fill rest fillers ∧ ∀ p run,
      gapRun false run p g =
        (Filler.unknownSpans p fillers).foldl (fun run s => some (Span.join run s)) run := by
  induction h with
  | nil => exact ⟨[], rfl, trivial, fun p run => rfl⟩
  | @blank u c g hc h ih =>
    obtain ⟨fillers, rfl, hfill, hrun⟩ := ih
    refine ⟨.blank c :: fillers, rfl, ⟨hc, hfill⟩, fun p run => ?_⟩
    rw [gapRun, if_neg (by simp), if_pos hc, hrun]
    rfl
  | @comment u line g hline h ih =>
    obtain ⟨fillers, rfl, hfill, hrun⟩ := ih
    have hnewline : Text.isWhitespace '\n' = true := by decide
    refine ⟨.comment line :: .blank '\n' :: fillers, by simp [Filler.spelling],
      ⟨⟨hline, by simp [Filler.spelling]⟩, hnewline, hfill⟩, fun p run => ?_⟩
    rw [gapRun_slashes, gapRun_comment hline, hrun]
    simp only [Filler.unknownSpans, Position.after_append, Position.after_cons, Position.after_nil]
  | @unknown u c g hc hnext h ih =>
    obtain ⟨fillers, rfl, hfill, hrun⟩ := ih
    obtain ⟨hblank, hpart, hquote, hsymbol⟩ := Text.unknown_of_isUnknown hc
    refine ⟨.unknown c :: fillers, rfl, ⟨⟨hblank, hpart, hquote, hsymbol, ?_⟩, hfill⟩,
      fun p run => ?_⟩
    · rintro ⟨hcolon, hequals⟩
      cases htext : Filler.text fillers with
      | nil => exact hrest (by simpa [htext] using hequals)
      | cons d ds => exact hnext hcolon (by simpa [htext] using hequals)
    · rw [gapRun_unknown hc, hrun]
      rfl

theorem EndGap.exists_fillers {u : Bool} {g : Text} (h : EndGap u g) :
    ∃ fillers, g = Filler.text fillers ∧ Filler.Fill [] fillers ∧ ∀ p,
      unknownReports (gapRun false none p g) = Filler.reports p fillers := by
  cases h with
  | closed h =>
    obtain ⟨fillers, rfl, hfill, hrun⟩ := h.exists_fillers [] (by simp)
    refine ⟨fillers, rfl, hfill, fun p => ?_⟩
    rw [hrun, ← Filler.reports_eq]
    rfl
  | @opened g line h hline =>
    obtain ⟨fillers, rfl, hfill, hrun⟩ := h.exists_fillers ('/' :: '/' :: line) (by simp)
    refine ⟨fillers ++ [.comment line], ?_, ?_, fun p => ?_⟩
    · rw [Filler.text_append]
      simp [Filler.spelling]
    · refine Filler.fill_append ?_ ⟨⟨hline, by simp⟩, trivial⟩
      simpa [Filler.spelling] using hfill
    · have hspans : Filler.unknownSpans p (fillers ++ [.comment line]) =
          Filler.unknownSpans p fillers := by
        rw [Filler.unknownSpans_append]
        exact List.append_nil _
      rw [gapRun_gap h, gapRun_slashes, gapRun_comment_end hline, hrun, ← Filler.reports_eq, hspans]
      rfl

theorem Lexeme.Fits.spelled {lexeme : Lexeme} {rest : Text} (h : lexeme.Fits rest.head?)
    (leads : Bool) : (lexeme.terminalBefore leads).Spelled lexeme.spelling rest := by
  cases lexeme with
  | word name =>
    cases leads with
    | false => exact ⟨String.toList_ofList.symm, h.1, h.2⟩
    | true => exact ⟨String.toList_ofList.symm, h.1, h.2⟩
  | number digits => exact ⟨String.toList_ofList.symm, h.1, h.2.1, h.2.2⟩
  | quoted value closed =>
    obtain ⟨hvalue, hopen⟩ := h
    change '"' ∉ (String.ofList value).toList ∧ _
    rw [String.toList_ofList]
    refine ⟨hvalue, ?_⟩
    cases closed with
    | true => exact .inl rfl
    | false => exact .inr ⟨by simp [spelling], List.head?_eq_none_iff.1 (hopen rfl)⟩
  | assign => rfl
  | operator op => exact ⟨rfl, h⟩

theorem Lexeme.reports_eq_openReports (lexeme : Lexeme) (leads : Bool) (span : Span) :
    lexeme.reports span =
      Token.openReports lexeme.spelling ⟨lexeme.terminalBefore leads, span⟩ := by
  cases lexeme with
  | word name => cases leads <;> rfl
  | quoted value closed =>
    change _ = if spelling _ = '"' :: (String.ofList value).toList then _ else _
    rw [String.toList_ofList]
    cases closed with
    | true => rw [if_neg (by simp [spelling])]; rfl
    | false => rw [if_pos (by simp [spelling])]; rfl
  | _ => rfl

theorem Laid.tiled {pieces : List Piece} {closing : Text} (h : Laid pieces closing)
    (p : Position) : Tiled p (spell pieces closing) (readingsAt p pieces)
      (unknownReports (gapRun false none (p.after (spell pieces [])) closing)) := by
  induction pieces generalizing p with
  | nil =>
    obtain ⟨u, hend⟩ := h
    obtain ⟨fillers, rfl, hfill, hreports⟩ := hend.exists_fillers
    rw [hreports]
    exact .finish hfill
  | cons piece more ih =>
    obtain ⟨gap, unknown, lexeme⟩ := piece
    obtain ⟨hgap, hfits, hmore⟩ := h
    obtain ⟨fillers, rfl, hfill, hrun⟩ :=
      hgap.exists_fillers (lexeme.spelling ++ spell more closing) (Lexeme.head?_ne_equals hfits)
    have hreports : unknownReports (gapRun false none p (Filler.text fillers)) =
        Filler.reports p fillers := by
      rw [hrun, ← Filler.reports_eq]
      rfl
    rw [readingsAt, spell]
    simp only [hreports, Lexeme.reports_eq_openReports lexeme (assignNext more)]
    refine .token hfill rfl (hfits.spelled _) ?_
    rw [spell, Position.after_append, Position.after_append]
    exact ih hmore _

theorem Terminal.Spelled.ne_nil {terminal : Terminal} {spelling behind : Text}
    (h : terminal.Spelled spelling behind) : spelling ≠ [] := by
  rintro rfl
  cases terminal with
  | ident name => exact absurd h.2.1 (by decide)
  | leadingIdent name => exact absurd h.2.1 (by decide)
  | integer digits => exact h.2.1 rfl
  | string value => simp [Spelled] at h
  | assign => simp [Spelled] at h
  | operator op => simp [Spelled] at h

theorem Token.IsOpen.behind_eq_nil {t : Token} {spelling behind : Text}
    (hopen : t.IsOpen spelling) (h : t.terminal.Spelled spelling behind) : behind = [] := by
  obtain ⟨value, hterminal, rfl⟩ := hopen
  rw [hterminal] at h
  rcases h.2 with hclosed | ⟨-, hnil⟩
  · simp at hclosed
  · exact hnil

theorem Token.IsOpen.openReports_eq {t : Token} {spelling : Text} (h : t.IsOpen spelling) :
    t.openReports spelling = [⟨t.span, .unterminatedString⟩] := by
  obtain ⟨value, hterminal, hspelling⟩ := h
  rw [openReports, hterminal]
  exact if_pos hspelling

theorem Token.openReports_eq_nil {t : Token} {spelling : Text} (h : ¬ t.IsOpen spelling) :
    t.openReports spelling = [] := by
  rw [openReports]
  cases hterminal : t.terminal with
  | string value => exact if_neg fun hspelling => h ⟨value, hterminal, hspelling⟩
  | _ => rfl

theorem Filler.filter_reports (p : Position) (fillers : List Filler) :
    (reports p fillers).filter (·.cause = .unterminatedString) = [] := by
  rw [reports]
  split <;> rfl

namespace Tiled

variable {p : Position} {text : Text} {readings : List Reading} {closing : List Diagnostic}

theorem nil_text (h : Tiled p text readings closing) (htext : text = []) :
    readings = [] ∧ closing = [] := by
  cases h with
  | @finish _ gap hgap =>
    cases gap with
    | nil => exact ⟨rfl, rfl⟩
    | cons filler more => cases filler <;> simp [Filler.spelling] at htext
  | token hgap hspan hspelled hmore =>
    have hnil := (List.append_eq_nil_iff.1 (List.append_eq_nil_iff.1 htext).2).1
    exact absurd hnil hspelled.ne_nil

/-- Each token covers its spelling; an open string is the last and the only one reported. -/
theorem exists_spelling (h : Tiled p text readings closing) {r : Reading} (hr : r ∈ readings) :
    ∃ before spelling behind, text = before ++ (spelling ++ behind) ∧
      r.token.span = ⟨p.after before, p.after (before ++ spelling)⟩ ∧
      r.token.terminal.Spelled spelling behind ∧
      (r.token.IsOpen spelling → behind = [] ∧ readings.getLast? = some r ∧
        (readings.flatMap Reading.reports ++ closing).filter (·.cause = .unterminatedString) =
          [⟨r.token.span, .unterminatedString⟩]) := by
  induction h with
  | finish => simp at hr
  | @token p gap t spelling rest readings closing hgap hspan hspelled hmore ih =>
    rcases List.mem_cons.1 hr with rfl | hr
    · refine ⟨Filler.text gap, spelling, rest, rfl, by rw [Position.after_append, hspan],
        hspelled, fun hopen => ?_⟩
      have hrest := hopen.behind_eq_nil hspelled
      obtain ⟨rfl, rfl⟩ := hmore.nil_text hrest
      refine ⟨hrest, rfl, ?_⟩
      have hfill := Filler.filter_reports p gap
      simp only [List.flatMap_cons, List.flatMap_nil, List.append_nil, List.filter_append, hfill,
        List.nil_append, hopen.openReports_eq]
      rfl
    · obtain ⟨before, spelling', behind, rfl, hspan', hspelled', hlast⟩ := ih hr
      -- a token that is not the last is no open string
      have hclosed : ¬ t.IsOpen spelling := by
        intro hopen
        have hrest := hopen.behind_eq_nil hspelled
        obtain ⟨hnil, -⟩ := hmore.nil_text hrest
        rw [hnil] at hr
        simp at hr
      refine ⟨Filler.text gap ++ (spelling ++ before), spelling', behind, by simp, ?_, hspelled',
        fun hopen => ?_⟩
      · rw [hspan', hspan]
        simp
      · obtain ⟨hbehind, hgetLast, hfilter⟩ := hlast hopen
        refine ⟨hbehind, ?_, ?_⟩
        · rw [List.getLast?_cons, hgetLast]
          rfl
        · rw [List.flatMap_cons, Token.openReports_eq_nil hclosed, List.append_nil,
            List.append_assoc, List.filter_append, Filler.filter_reports, List.nil_append, hfilter]

end Tiled

namespace TokenStream

theorem finish_ofText (text : Text) : (ofText text).finish = text.finish := by
  obtain ⟨pieces, closing, rfl, hlaid⟩ := exists_laid text
  rw [ofText_laid hlaid]
  rfl

theorem tiled (text : Text) : Tiled {} text (ofText text).readings (ofText text).closing := by
  obtain ⟨pieces, closing, rfl, hlaid⟩ := exists_laid text
  rw [ofText_laid hlaid]
  exact hlaid.tiled {}

end TokenStream

/-- Nothing of the text is lost, every token is as long as it can be, and exactly what the
tiling says is reported. -/
theorem scan_lossless (text : Text) :
    Tiled {} text (TokenStream.ofText text).readings (TokenStream.ofText text).closing ∧
      (TokenStream.ofText text).finish = text.finish ∧
      (TokenStream.ofText text).tokens.Pairwise
        (fun t u => t.span.stop.offset ≤ u.span.start.offset) ∧
      (∀ t ∈ (TokenStream.ofText text).tokens, t.span.start.offset < t.span.stop.offset ∧
        t.span.stop.offset ≤ (TokenStream.ofText text).finish.offset) ∧
      ∀ t ∈ (TokenStream.ofText text).tokens, ∃ before spelling behind,
        text = before ++ (spelling ++ behind) ∧
        t.span = ⟨Position.after {} before, Position.after {} (before ++ spelling)⟩ ∧
        t.terminal.Spelled spelling behind ∧
        (t.IsOpen spelling → behind = [] ∧ (TokenStream.ofText text).tokens.getLast? = some t ∧
          (TokenStream.ofText text).reports.filter (·.cause = .unterminatedString) =
            [⟨t.span, .unterminatedString⟩]) := by
  have hrow := TokenStream.row text
  have htiled := TokenStream.tiled text
  have hfinish := TokenStream.finish_ofText text
  refine ⟨htiled, hfinish, hrow.pairwise, fun t ht => ?_, fun t ht => ?_⟩
  · have hmem := hrow.mem ht
    rw [hfinish, Text.finish, Position.offset_after]
    exact ⟨hmem.2.1, by omega⟩
  · obtain ⟨r, hr, rfl⟩ := List.mem_map.1 ht
    obtain ⟨before, spelling, behind, htext, hspan, hspelled, hlast⟩ := htiled.exists_spelling hr
    refine ⟨before, spelling, behind, htext, hspan, hspelled, fun hopen => ?_⟩
    obtain ⟨hbehind, hgetLast, hreports⟩ := hlast hopen
    refine ⟨hbehind, ?_, hreports⟩
    rw [TokenStream.tokens, List.getLast?_map, hgetLast]
    rfl

end AssignLang
