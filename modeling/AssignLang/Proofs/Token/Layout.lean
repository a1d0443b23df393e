import AssignLang.Proofs.Relocation
import AssignLang.Proofs.Token.Gap

/-! Texts laid out as tokens with the gaps before them. Every text has such a layout, and
whatever is laid out so is scanned back as its tokens. Each condition of a layout looks
at one token and the character behind it: texts can be cut, joined and padded by taking
layouts apart and putting them together again. -/

namespace AssignLang

/-- A lexeme with the gap before it. -/
structure Piece where
  gap : Text
  unknown : Bool
  lexeme : Lexeme
deriving DecidableEq, Repr, Inhabited

/-- The text of some pieces and a closing gap. -/
def spell : List Piece → Text → Text
  | [], closing => closing
  | piece :: more, closing => piece.gap ++ (piece.lexeme.spelling ++ spell more closing)

/-- The pieces and the closing gap are those of their text. -/
def Laid : List Piece → Text → Prop
  | [], closing => ∃ u, EndGap u closing
  | piece :: more, closing => Gap piece.unknown piece.gap ∧
      piece.lexeme.Fits (spell more closing).head? ∧ Laid more closing

theorem exists_laid (text : Text) : ∃ pieces closing, text = spell pieces closing ∧
    Laid pieces closing := by
  induction hn : text.length using Nat.strongRecOn generalizing text with
  | ind n ih =>
    subst hn
    rcases exists_gap text with h | ⟨u, g, lexeme, rest, rfl, hg, hfits⟩
    · exact ⟨[], text, rfl, h⟩
    · have hlen := Lexeme.length_lt_of_read? (Lexeme.read?_of_fits hfits)
      obtain ⟨pieces, closing, rfl, hlaid⟩ := ih rest.length (by simp at hlen ⊢; omega) rest rfl
      exact ⟨⟨g, u, lexeme⟩ :: pieces, closing, rfl, hg, hfits, hlaid⟩

theorem spell_append (pieces more : List Piece) (closing : Text) :
    spell (pieces ++ more) closing = spell pieces [] ++ spell more closing := by
  induction pieces with
  | nil => rfl
  | cons piece pieces ih => simp [spell, ih]

theorem spell_split (pieces : List Piece) (closing : Text) :
    spell pieces closing = spell pieces [] ++ closing := by
  rw [← List.append_nil pieces, spell_append, List.append_nil]
  rfl

theorem Lexeme.spelling_ne_nil_of_fits {lexeme : Lexeme} {rest : Text}
    (h : lexeme.Fits rest.head?) : lexeme.spelling ≠ [] :=
  spelling_ne_nil_of_read? (read?_of_fits h)

theorem head?_spell {piece : Piece} (h : piece.lexeme.spelling ≠ []) (more : List Piece)
    (closing : Text) :
    (spell (piece :: more) closing).head? = (piece.gap ++ piece.lexeme.spelling).head? := by
  obtain ⟨c, cs, hcs⟩ := List.exists_cons_of_ne_nil h
  simp [spell, List.head?_append, hcs]

/-- Behind blanks and comments an assignment sign comes next. -/
def assignNext (pieces : List Piece) : Bool :=
  pieces.head?.any fun piece => !piece.unknown && piece.lexeme = .assign

theorem Lexeme.isPrefixOf_iff_assign {lexeme : Lexeme} {rest : Text}
    (h : lexeme.Fits rest.head?) :
    [':', '='].isPrefixOf (lexeme.spelling ++ rest) = true ↔ lexeme = .assign := by
  constructor
  · intro hprefix
    obtain ⟨behind, hbehind⟩ := List.isPrefixOf_iff_prefix.1 hprefix
    have hread := read?_of_fits h
    rw [← hbehind] at hread
    have hassign : read? (':' :: '=' :: behind) = some (.assign, behind) := by
      simp [read?, show Identifier.isStart ':' = false by decide,
        show Char.isDigit ':' = false by decide]
    exact (Prod.mk.inj (Option.some.inj (hread.symm.trans hassign))).1
  · rintro rfl
    exact List.isPrefixOf_iff_prefix.2 ⟨rest, rfl⟩

theorem Lexeme.head?_ne_equals {lexeme : Lexeme} {rest : Text} (h : lexeme.Fits rest.head?) :
    (lexeme.spelling ++ rest).head? ≠ some '=' := by
  intro hhead
  obtain ⟨behind, hbehind⟩ := List.head?_eq_some_iff.1 hhead
  have hread := read?_of_fits h
  have hnone : read? ('=' :: behind) = none :=
    read?_singleton_iff.2 ⟨by decide, fun heq => absurd heq (by decide)⟩
  rw [hbehind, hnone] at hread
  simp at hread

theorem startsAssign_spell {pieces : List Piece} {closing : Text} (h : Laid pieces closing) :
    (spell pieces closing).startsAssign = assignNext pieces := by
  unfold Text.startsAssign
  cases pieces with
  | nil =>
    obtain ⟨u, hend⟩ := h
    change _ = false
    cases u with
    | false => rw [spell, Cursor.walkTrivia_endGap hend rfl]; rfl
    | true =>
      cases hend with
      | closed hg =>
        have hwalk := Cursor.walkTrivia_unknown (p := {}) hg rfl
          (show ([] : Text).head? ≠ some '=' by simp)
        rwa [List.append_nil] at hwalk
      | opened hg hline => exact Cursor.walkTrivia_unknown hg rfl (by simp)
  | cons piece more =>
    obtain ⟨g, u, lexeme⟩ := piece
    obtain ⟨hg, hfits, hmore⟩ := h
    cases u with
    | false =>
      rw [spell, Cursor.walkTrivia_gap hg rfl,
        Cursor.walkTrivia_startsToken (Lexeme.startsToken_of_fits hfits), Bool.eq_iff_iff,
        Lexeme.isPrefixOf_iff_assign hfits]
      cases lexeme <;> simp [assignNext]
    | true =>
      rw [spell, Cursor.walkTrivia_unknown hg rfl (Lexeme.head?_ne_equals hfits)]
      rfl

/-- What a lexeme is; `leads` says whether an assignment sign comes next. -/
def Lexeme.terminalBefore (leads : Bool) : Lexeme → Terminal
  | .word name =>
    if leads then .leadingIdent (String.ofList name) else .ident (String.ofList name)
  | .number digits => .integer (String.ofList digits)
  | .quoted value _ => .string (String.ofList value)
  | .assign => .assign
  | .operator op => .operator op

theorem Lexeme.terminal_eq (rest : Text) (lexeme : Lexeme) :
    lexeme.terminal rest = lexeme.terminalBefore rest.startsAssign := by
  cases lexeme <;> rfl

/-- The readings of pieces that stand at `p`. -/
def readingsAt (p : Position) : List Piece → List Reading
  | [] => []
  | piece :: more =>
    let start := p.after piece.gap
    let span : Span := ⟨start, start.after piece.lexeme.spelling⟩
    ⟨⟨piece.lexeme.terminalBefore (assignNext more), span⟩,
      unknownReports (gapRun false none p piece.gap) ++ piece.lexeme.reports span⟩ ::
        readingsAt span.stop more

namespace TokenStream

theorem collect_finish {c : Cursor} {p : Position} {reports : List Diagnostic}
    (h : c.next = .finish p reports) (passed : List Reading) :
    collect passed c = ⟨passed.reverse, p, reports⟩ := by
  rw [collect]
  split <;> simp_all

theorem collect_token {c next : Cursor} {r : Reading} (h : c.next = .token r next)
    (passed : List Reading) : collect passed c = collect (r :: passed) next := by
  rw [collect]
  split <;> simp_all

theorem collect_laid {pieces : List Piece} {closing : Text} (h : Laid pieces closing)
    (passed : List Reading) (p : Position) :
    collect passed ⟨p, spell pieces closing⟩ =
      ⟨passed.reverse ++ readingsAt p pieces, p.after (spell pieces closing),
        unknownReports (gapRun false none (p.after (spell pieces [])) closing)⟩ := by
  induction pieces generalizing passed p with
  | nil =>
    obtain ⟨u, hend⟩ := h
    rw [spell, collect_finish (Cursor.nextFrom_endGap hend none)]
    simp [readingsAt, spell]
  | cons piece more ih =>
    obtain ⟨hg, hfits, hmore⟩ := h
    have hnext : Cursor.next ⟨p, spell (piece :: more) closing⟩ = _ :=
      (Cursor.nextFrom_gap hg (Lexeme.head?_ne_equals hfits) none).trans
        (Cursor.nextFrom_token hfits _)
    rw [collect_token hnext, ih hmore, Lexeme.terminal_eq, startsAssign_spell hmore]
    simp [readingsAt, spell]

/-- A text is scanned as its layout says. -/
theorem ofText_laid {pieces : List Piece} {closing : Text} (h : Laid pieces closing) :
    ofText (spell pieces closing) =
      ⟨readingsAt {} pieces, Position.after {} (spell pieces closing),
        unknownReports (gapRun false none (Position.after {} (spell pieces [])) closing)⟩ :=
  collect_laid h [] {}

end TokenStream

def tokensAt (p : Position) (pieces : List Piece) : List Token :=
  (readingsAt p pieces).map Reading.token

theorem TokenStream.tokens_laid {pieces : List Piece} {closing : Text}
    (h : Laid pieces closing) : (ofText (spell pieces closing)).tokens = tokensAt {} pieces := by
  rw [TokenStream.tokens, ofText_laid h]
  rfl

@[simp] theorem tokensAt_nil (p : Position) : tokensAt p [] = [] := rfl

@[simp] theorem tokensAt_cons (p : Position) (piece : Piece) (more : List Piece) :
    tokensAt p (piece :: more) =
      ⟨piece.lexeme.terminalBefore (assignNext more),
        ⟨p.after piece.gap, (p.after piece.gap).after piece.lexeme.spelling⟩⟩ ::
      tokensAt ((p.after piece.gap).after piece.lexeme.spelling) more := rfl

theorem length_tokensAt (p : Position) (pieces : List Piece) :
    (tokensAt p pieces).length = pieces.length := by
  induction pieces generalizing p with
  | nil => rfl
  | cons piece more ih => simp [ih]

theorem assignNext_of_head {p : Position} {pieces : List Piece}
    (h : ∀ t ∈ (tokensAt p pieces).head?, t.kind ≠ .assign) : assignNext pieces = false := by
  cases pieces with
  | nil => rfl
  | cons piece more =>
    have hne : piece.lexeme ≠ .assign := by
      intro hlexeme
      refine h _ rfl ?_
      rw [hlexeme]
      rfl
    simp [assignNext, hne]

theorem assignNext_append {pieces more : List Piece} (h : assignNext more = false) :
    assignNext (pieces ++ more) = assignNext pieces := by
  cases pieces with
  | nil => exact h
  | cons piece pieces => rfl

/-- Tokens of a part depend on the rest only if that starts with an assignment sign. -/
theorem tokensAt_append (p : Position) (pieces : List Piece) {more : List Piece}
    (h : assignNext more = false) :
    tokensAt p (pieces ++ more) =
      tokensAt p pieces ++ tokensAt (p.after (spell pieces [])) more := by
  induction pieces generalizing p with
  | nil => rfl
  | cons piece pieces ih =>
    rw [List.cons_append, tokensAt_cons, tokensAt_cons, ih, assignNext_append h, spell]
    simp

/-- Scanning commutes with every move of points that keeps the distances. -/
theorem tokensAt_relocate {f g : Relocation} {p q : Position} (pieces : List Piece)
    (h : ∀ s : Text, f.move (p.after s) = g.move (q.after s)) :
    (tokensAt p pieces).map (Token.relocate f) = (tokensAt q pieces).map (Token.relocate g) := by
  induction pieces generalizing p q with
  | nil => rfl
  | cons piece more ih =>
    have hnext : ∀ s : Text, f.move (((p.after piece.gap).after piece.lexeme.spelling).after s) =
        g.move (((q.after piece.gap).after piece.lexeme.spelling).after s) := by
      intro s
      rw [← Position.after_append, ← Position.after_append, ← Position.after_append,
        ← Position.after_append]
      exact h _
    have hstart := h piece.gap
    have hstop := hnext []
    rw [tokensAt_cons, tokensAt_cons, List.map_cons, List.map_cons, ih hnext]
    simp only [Token.relocate, Span.relocate, hstart]
    rw [Position.after_nil, Position.after_nil] at hstop
    rw [hstop]

theorem Laid.replace {pieces more other : List Piece} {closing closing' : Text}
    (h : Laid (pieces ++ more) closing) (h' : Laid other closing')
    (hseam : ∀ piece ∈ pieces.getLast?, piece.lexeme.Fits (spell other closing').head?) :
    Laid (pieces ++ other) closing' := by
  induction pieces with
  | nil => exact h'
  | cons piece pieces ih =>
    obtain ⟨hg, hfits, hmore⟩ := h
    cases pieces with
    | nil => exact ⟨hg, hseam piece rfl, h'⟩
    | cons next pieces =>
      refine ⟨hg, ?_, ih hmore hseam⟩
      -- the character behind the piece belongs to the next piece
      obtain ⟨-, hnext, -⟩ := hmore
      have hne := Lexeme.spelling_ne_nil_of_fits hnext
      change piece.lexeme.Fits (spell (next :: (pieces ++ more)) closing).head? at hfits
      change piece.lexeme.Fits (spell (next :: (pieces ++ other)) closing').head?
      rw [head?_spell hne] at hfits ⊢
      exact hfits

def Lexeme.isClosed : Lexeme → Bool
  | .quoted _ closed => closed
  | _ => true

def Piece.isClean (piece : Piece) : Bool := !piece.unknown && piece.lexeme.isClosed

theorem Piece.unknown_of_isClean {piece : Piece} (h : piece.isClean = true) :
    piece.unknown = false := by
  rw [Piece.isClean, Bool.and_eq_true, Bool.not_eq_true'] at h
  exact h.1

/-- Nothing in the layout is worth a report. -/
def Clean (pieces : List Piece) (closing : Text) : Prop :=
  (∀ piece ∈ pieces, piece.isClean = true) ∧ EndGap false closing

theorem unknownReports_eq_nil_iff {run : Option Span} :
    unknownReports run = [] ↔ run.isSome = false := by
  cases run <;> simp [unknownReports]

theorem Lexeme.reports_eq_nil_iff {lexeme : Lexeme} {span : Span} :
    lexeme.reports span = [] ↔ lexeme.isClosed = true := by
  cases lexeme with
  | quoted value closed => cases closed <;> simp [reports, isClosed]
  | _ => simp [reports, isClosed]

theorem reports_readingsAt {pieces : List Piece} {closing : Text} (h : Laid pieces closing)
    (p : Position) : (readingsAt p pieces).flatMap Reading.reports = [] ↔
      ∀ piece ∈ pieces, piece.isClean = true := by
  induction pieces generalizing p with
  | nil => simp [readingsAt]
  | cons piece more ih =>
    obtain ⟨hg, -, hmore⟩ := h
    rw [readingsAt, List.flatMap_cons, List.append_eq_nil_iff, ih hmore, List.append_eq_nil_iff,
      unknownReports_eq_nil_iff, Lexeme.reports_eq_nil_iff, gapRun_isSome hg,
      List.forall_mem_cons, Piece.isClean]
    simp

theorem Laid.endGap {pieces : List Piece} {closing : Text} (h : Laid pieces closing) :
    ∃ u, EndGap u closing := by
  induction pieces with
  | nil => exact h
  | cons piece more ih => exact ih h.2.2

/-- The scanner has nothing to report on exactly the clean layouts. -/
theorem Laid.reports_eq_nil_iff {pieces : List Piece} {closing : Text}
    (h : Laid pieces closing) :
    (TokenStream.ofText (spell pieces closing)).reports = [] ↔ Clean pieces closing := by
  obtain ⟨u, hu⟩ := h.endGap
  rw [TokenStream.ofText_laid h, TokenStream.reports, List.append_eq_nil_iff,
    reports_readingsAt h, unknownReports_eq_nil_iff, gapRun_isSome_end hu, Clean]
  refine and_congr_right fun _ => ⟨?_, fun hclosing => ?_⟩
  · rintro rfl
    exact hu
  · rw [← gapRun_isSome_end (p := {}) hu, gapRun_isSome_end hclosing]

theorem Laid.pad {pieces : List Piece} {closing g : Text} {u : Bool} (h : Laid pieces closing)
    (hg : Gap u g)
    (hseam : u = true → g.getLast? = some ':' → (spell pieces closing).head? ≠ some '=') :
    ∃ pieces' closing', spell pieces' closing' = g ++ spell pieces closing ∧
      Laid pieces' closing' ∧ (∀ p, tokensAt p pieces' = tokensAt (p.after g) pieces) ∧
      assignNext pieces' = (!u && assignNext pieces) ∧
      (u = false → Clean pieces closing → Clean pieces' closing') := by
  cases pieces with
  | nil =>
    obtain ⟨v, hend⟩ := h
    refine ⟨[], g ++ closing, rfl, ⟨_, hg.append_end hend hseam⟩, fun p => rfl, ?_, ?_⟩
    · simp [assignNext]
    · rintro rfl ⟨-, hclosing⟩
      exact ⟨by simp, hg.append_end hclosing (by simp)⟩
  | cons piece more =>
    obtain ⟨gap, v, lexeme⟩ := piece
    obtain ⟨hgap, hfits, hmore⟩ := h
    have hall : Gap (u || v) (g ++ gap) := by
      refine hg.append hgap fun hu hlast => ?_
      have := hseam hu hlast
      cases gap with
      | nil => simp
      | cons c cs => exact this
    refine ⟨⟨g ++ gap, u || v, lexeme⟩ :: more, closing, by simp [spell],
      ⟨hall, hfits, hmore⟩, fun p => by simp, ?_, ?_⟩
    · cases u <;> simp [assignNext]
    · rintro rfl ⟨hpieces, hclosing⟩
      rw [List.forall_mem_cons] at hpieces
      exact ⟨List.forall_mem_cons.2 hpieces, hclosing⟩

theorem Laid.append {pieces rest more : List Piece} {closing closing' g : Text} {u : Bool}
    (h : Laid (pieces ++ rest) closing) (hg : Gap u g) (hmore : Laid more closing')
    (hassign : assignNext more = false)
    (hcolon : u = true → g.getLast? = some ':' → (spell more closing').head? ≠ some '=')
    (hseam : ∀ piece ∈ pieces.getLast?, piece.lexeme.Fits (g ++ spell more closing').head?) :
    ∃ pieces' closing'', spell pieces' closing'' = spell pieces g ++ spell more closing' ∧
      Laid pieces' closing'' ∧
      (∀ p, tokensAt p pieces' =
        tokensAt p pieces ++ tokensAt (p.after (spell pieces g)) more) ∧
      (u = false → (∀ piece ∈ pieces, piece.isClean = true) → Clean more closing' →
        Clean pieces' closing'') := by
  obtain ⟨other, closing'', hspell, hother, htokens, hnext, hclean⟩ := hmore.pad hg hcolon
  rw [← hspell] at hseam
  rw [hassign, Bool.and_false] at hnext
  refine ⟨pieces ++ other, closing'', ?_, ?_, fun p => ?_, fun hu hpieces hmore => ?_⟩
  · rw [spell_append, hspell, spell_split pieces g, List.append_assoc]
  · exact h.replace hother hseam
  · rw [tokensAt_append p pieces hnext, htokens, spell_split pieces g, Position.after_append]
  · obtain ⟨hall, hend⟩ := hclean hu hmore
    refine ⟨fun piece hpiece => ?_, hend⟩
    rcases List.mem_append.1 hpiece with hpiece | hpiece
    · exact hpieces piece hpiece
    · exact hall piece hpiece

theorem Laid.fits_getLast {pieces more : List Piece} {closing : Text}
    (h : Laid (pieces ++ more) closing) :
    ∀ piece ∈ pieces.getLast?, piece.lexeme.Fits (spell more closing).head? := by
  induction pieces with
  | nil => simp
  | cons piece pieces ih =>
    obtain ⟨-, hfits, hmore⟩ := h
    cases pieces with
    | nil =>
      intro piece' hpiece
      obtain rfl := Option.some.inj hpiece
      exact hfits
    | cons next pieces => exact ih hmore

end AssignLang
