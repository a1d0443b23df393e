import AssignLang.Proofs.Parse.Extent
import AssignLang.Proofs.Token.Layout

/-! Cutting a statement out of a text that parses without a report. The gap before the
statement joins the one behind it; no token is glued to another and none changes its
sort, so the other assignments stay and those behind move up by what was cut. -/

namespace AssignLang

open Derived

theorem offset_of_mem_tokensAt {p : Position} {pieces : List Piece} :
    ∀ t ∈ tokensAt p pieces, p.offset ≤ t.span.start.offset ∧
      t.span.start.offset ≤ t.span.stop.offset := by
  induction pieces generalizing p with
  | nil => simp
  | cons piece more ih =>
    intro t ht
    rw [tokensAt_cons] at ht
    rcases List.mem_cons.1 ht with rfl | ht
    · simp
    · obtain ⟨hstart, hstop⟩ := ih t ht
      simp only [Position.offset_after] at hstart
      exact ⟨by omega, hstop⟩

theorem pairwise_tokensAt (p : Position) (pieces : List Piece) :
    (tokensAt p pieces).Pairwise Token.Precedes := by
  induction pieces generalizing p with
  | nil => exact List.Pairwise.nil
  | cons piece more ih =>
    rw [tokensAt_cons]
    refine List.pairwise_cons.2 ⟨fun t ht => ?_, ih _⟩
    obtain ⟨hstart, hstop⟩ := offset_of_mem_tokensAt t ht
    simp only [Position.offset_after] at hstart
    constructor <;> simp <;> omega

/-- Where tokens divide before one that is no assignment sign, so do the pieces. -/
theorem tokensAt_split {p : Position} {pieces : List Piece} {ts us : List Token}
    (h : tokensAt p pieces = ts ++ us) (hus : ∀ t ∈ us.head?, t.kind ≠ .assign) :
    ∃ front behind, pieces = front ++ behind ∧ tokensAt p front = ts ∧
      tokensAt (p.after (spell front [])) behind = us ∧ assignNext behind = false := by
  induction ts generalizing p pieces with
  | nil =>
    rw [List.nil_append] at h
    subst h
    exact ⟨[], pieces, rfl, rfl, rfl, assignNext_of_head hus⟩
  | cons t ts ih =>
    cases pieces with
    | nil => simp at h
    | cons piece more =>
      rw [tokensAt_cons, List.cons_append] at h
      obtain ⟨htoken, hmore⟩ := List.cons.inj h
      obtain ⟨front, behind, rfl, hfront, hbehind, hassign⟩ := ih hmore
      refine ⟨piece :: front, behind, rfl, ?_, ?_, hassign⟩
      · rw [tokensAt_cons, hfront, ← htoken, assignNext_append hassign]
      · rw [spell, ← hbehind]
        simp

theorem getLast?_tokensAt {p : Position} {pieces : List Piece} :
    ∀ t ∈ (tokensAt p pieces).getLast?, t.span.stop = p.after (spell pieces []) ∧
      ∃ piece leads, pieces.getLast? = some piece ∧
        t.terminal = piece.lexeme.terminalBefore leads := by
  induction pieces generalizing p with
  | nil => simp
  | cons piece more ih =>
    intro t ht
    cases more with
    | nil =>
      rw [tokensAt_cons, tokensAt_nil] at ht
      obtain rfl := Option.some.inj ht
      exact ⟨by simp [spell], piece, _, rfl, rfl⟩
    | cons next more =>
      rw [tokensAt_cons, List.getLast?_cons_of_ne_nil (by simp)] at ht
      obtain ⟨hstop, last, leads, hlast, hterminal⟩ := ih t ht
      refine ⟨?_, last, leads, ?_, hterminal⟩
      · change _ = p.after (piece.gap ++ (piece.lexeme.spelling ++ spell (next :: more) []))
        rw [hstop, Position.after_append, Position.after_append]
      · rwa [List.getLast?_cons_of_ne_nil (by simp)]

theorem Laid.drop {pieces more : List Piece} {closing : Text} (h : Laid (pieces ++ more) closing) :
    Laid more closing := by
  induction pieces with
  | nil => exact h
  | cons piece pieces ih => exact ih h.2.2

theorem Lexeme.Fits.of_word {lexeme : Lexeme} {c : Char} {next : Option Char}
    (h : lexeme.Fits (some c)) (hc : Identifier.isStart c = true)
    (hop : ∀ op, lexeme ≠ .operator op) (hnext : ∀ d ∈ next, d.isDigit = false) :
    lexeme.Fits next := by
  cases lexeme with
  | word name =>
    have hpart := h.2 c rfl
    rw [Identifier.isPart_iff.2 (.inl hc)] at hpart
    simp at hpart
  | number digits => exact ⟨h.1, h.2.1, hnext⟩
  | quoted value closed =>
    refine ⟨h.1, fun hopen => ?_⟩
    have := h.2 hopen
    simp at this
  | assign => trivial
  | operator op => exact absurd rfl (hop op)

theorem exists_start_of_fits {name : Text} {next : Option Char} (h : (Lexeme.word name).Fits next) :
    ∃ c cs, name = c :: cs ∧ Identifier.isStart c = true := by
  cases name with
  | nil => exact absurd h.1 (by decide)
  | cons c cs =>
    have hvalid := h.1
    rw [Identifier.isValid, Bool.and_eq_true] at hvalid
    exact ⟨c, cs, rfl, hvalid.1⟩

/-- No digit stands where a gap, a word or the end of the text is. -/
theorem isDigit_head_spell {pieces : List Piece} {closing : Text} (h : Laid pieces closing)
    (hword : ∀ piece ∈ pieces.head?, ∃ name, piece.lexeme = .word name) :
    ∀ c ∈ (spell pieces closing).head?, c.isDigit = false := by
  have hdigit : ∀ c, Identifier.isPart c = false → c.isDigit = false := by
    intro c hc
    rw [Bool.eq_false_iff] at hc ⊢
    exact fun hd => hc (Identifier.isPart_iff.2 (.inr hd))
  intro c hc
  cases pieces with
  | nil =>
    obtain ⟨u, hend⟩ := h
    exact hdigit c (hend.isPart_head c hc)
  | cons piece more =>
    obtain ⟨hgap, hfits, -⟩ := h
    obtain ⟨name, hname⟩ := hword piece rfl
    rw [hname] at hfits
    obtain ⟨d, ds, rfl, hd⟩ := exists_start_of_fits hfits
    rw [spell, hname] at hc
    cases hg : piece.gap with
    | cons b g =>
      rw [hg] at hc hgap
      exact hdigit c (hgap.isPart_head c hc)
    | nil =>
      rw [hg] at hc
      obtain rfl := Option.some.inj hc
      rw [Bool.eq_false_iff]
      intro hdig
      rw [Identifier.isStart_of_isDigit hdig] at hd
      simp at hd

/-- Before a word, what comes before its gap can as well stand before that gap and, in place
of the word, another word or the end of the text. -/
theorem Laid.fits_seam {pieces more other : List Piece} {piece : Piece} {closing closing' : Text}
    {name : Text} (h : Laid (pieces ++ piece :: more) closing) (hname : piece.lexeme = .word name)
    (hlast : ∀ last ∈ pieces.getLast?, ∀ op, last.lexeme ≠ .operator op)
    (hother : Laid other closing')
    (hword : ∀ next ∈ other.head?, ∃ name, next.lexeme = .word name) :
    ∀ last ∈ pieces.getLast?, last.lexeme.Fits (piece.gap ++ spell other closing').head? := by
  intro last hmem
  have hfits := h.fits_getLast last hmem
  rw [spell, hname] at hfits
  cases hg : piece.gap with
  | cons c g =>
    rw [hg] at hfits
    exact hfits
  | nil =>
    obtain ⟨-, hpiece, -⟩ := h.drop
    rw [hname] at hpiece
    obtain ⟨c, cs, rfl, hc⟩ := exists_start_of_fits hpiece
    rw [hg] at hfits
    exact hfits.of_word hc (hlast last hmem) (isDigit_head_spell hother hword)

theorem Lexeme.terminalBefore_eq_assign_iff {lexeme : Lexeme} {leads : Bool} :
    lexeme.terminalBefore leads = .assign ↔ lexeme = .assign := by
  cases lexeme with
  | word name => cases leads <;> simp [terminalBefore]
  | _ => simp [terminalBefore]

theorem Lexeme.kind_terminalBefore_true {lexeme : Lexeme} {span : Span} {target : Ident}
    (h : Token.target? ⟨lexeme.terminalBefore true, span⟩ = some target) :
    (lexeme.terminalBefore true).kind = .leadingIdent := by
  cases lexeme with
  | word name => rfl
  | _ => simp [terminalBefore, Token.target?] at h

theorem startsStatement_of_clean {p : Position} {pieces : List Piece} {as : List Assignment}
    (hclean : ∀ piece ∈ pieces, piece.isClean = true) (h : Statements as (tokensAt p pieces)) :
    StartsStatement (tokensAt p pieces) := by
  generalize hts : tokensAt p pieces = ts at h
  cases h with
  | nil => simp [StartsStatement]
  | cons h _ =>
    obtain ⟨t, target, u, value, us, rfl, htarget, hu, -⟩ := h
    rw [List.cons_append, List.cons_append] at hts ⊢
    intro t' ht'
    obtain rfl := Option.some.inj ht'
    cases pieces with
    | nil => simp at hts
    | cons piece more =>
      cases more with
      | nil => simp at hts
      | cons sign more =>
        rw [tokensAt_cons, tokensAt_cons] at hts
        obtain ⟨ht, hts⟩ := List.cons.inj hts
        obtain ⟨hsign, -⟩ := List.cons.inj hts
        -- the sign behind the name has no unknown character before it
        rw [← hsign, Lexeme.terminalBefore_eq_assign_iff] at hu
        have hknown := Piece.unknown_of_isClean (hclean sign (by simp))
        have hleads : assignNext (sign :: more) = true := by simp [assignNext, hu, hknown]
        rw [← ht, hleads] at htarget
        rw [← ht, hleads]
        exact Lexeme.kind_terminalBefore_true htarget

theorem Derived.Statement.head_ne_assign {a : Assignment} {ts : List Token}
    (h : Statement a ts) (us : List Token) : ∀ t ∈ (ts ++ us).head?, t.kind ≠ .assign := by
  obtain ⟨t, target, u, value, more, rfl, htarget, -⟩ := h
  intro t' ht' hkind
  obtain rfl := Option.some.inj ht'
  obtain ⟨terminal, span⟩ := t
  cases terminal <;> simp_all [Token.kind, Terminal.kind, Token.target?]

theorem Derived.Statements.head_ne_assign {as : List Assignment} {ts : List Token}
    (h : Statements as ts) : ∀ t ∈ ts.head?, t.kind ≠ .assign := by
  cases h with
  | nil => simp
  | cons h _ => exact h.head_ne_assign _

theorem exists_word_of_target? {p : Position} {pieces : List Piece} {t : Token} {target : Ident}
    (h : (tokensAt p pieces).head? = some t) (ht : t.target? = some target) :
    ∃ gap unknown name more, pieces = ⟨gap, unknown, .word name⟩ :: more := by
  cases pieces with
  | nil => simp at h
  | cons piece more =>
    obtain ⟨gap, unknown, lexeme⟩ := piece
    rw [tokensAt_cons] at h
    obtain rfl := Option.some.inj h
    cases lexeme with
    | word name => exact ⟨gap, unknown, name, more, rfl⟩
    | _ => simp [Lexeme.terminalBefore, Token.target?] at ht

theorem Derived.Statement.exists_word {p : Position} {pieces : List Piece} {a : Assignment}
    (h : Statement a (tokensAt p pieces)) :
    ∃ gap unknown name more, pieces = ⟨gap, unknown, .word name⟩ :: more := by
  obtain ⟨t, target, u, value, us, hts, htarget, -⟩ := h
  exact exists_word_of_target? (by rw [hts]; rfl) htarget

theorem Derived.Statements.exists_word {p : Position} {pieces : List Piece}
    {as : List Assignment} (h : Statements as (tokensAt p pieces)) :
    ∀ piece ∈ pieces.head?, ∃ name, piece.lexeme = .word name := by
  generalize hts : tokensAt p pieces = ts at h
  intro piece hpiece
  cases h with
  | nil =>
    have hlength := length_tokensAt p pieces
    rw [hts] at hlength
    rw [List.length_eq_zero_iff.1 hlength.symm] at hpiece
    simp at hpiece
  | cons h _ =>
    obtain ⟨t, target, u, value, us, rfl, htarget, -⟩ := h
    obtain ⟨gap, unknown, name, more, rfl⟩ := exists_word_of_target? (by rw [hts]; rfl) htarget
    obtain rfl := Option.some.inj hpiece
    exact ⟨name, rfl⟩

theorem Derived.Statements.last_ne_operator {p : Position} {pieces : List Piece}
    {as : List Assignment} (h : Statements as (tokensAt p pieces)) :
    ∀ last ∈ pieces.getLast?, ∀ op, last.lexeme ≠ .operator op := by
  intro last hlast op hop
  have hne : tokensAt p pieces ≠ [] := by
    intro hnil
    have hlength := length_tokensAt p pieces
    rw [hnil] at hlength
    rw [List.length_eq_zero_iff.1 hlength.symm] at hlast
    simp at hlast
  obtain ⟨t, ht⟩ := Option.isSome_iff_exists.1 (List.getLast?_isSome.2 hne)
  obtain ⟨-, piece, leads, hpiece, hterminal⟩ := getLast?_tokensAt t ht
  obtain rfl := Option.some.inj (hpiece.symm.trans hlast)
  have hoperand := h.getLast?_operand (pairwise_tokensAt p pieces) t ht
  rw [Token.operand?, hterminal, hop] at hoperand
  simp [Lexeme.terminalBefore] at hoperand

theorem Derived.Statements.offset_le {p : Position} {pieces : List Piece}
    {as : List Assignment} (h : Statements as (tokensAt p pieces)) :
    ∀ b ∈ as, p.offset ≤ b.span.start.offset := by
  intro b hb
  obtain ⟨t, ht, heq⟩ := h.exists_start (pairwise_tokensAt p pieces) b hb
  rw [heq]
  exact (offset_of_mem_tokensAt t ht).1

theorem exists_pieces {p : Position} {pieces : List Piece} {front behind : List Assignment}
    {a : Assignment} (h : Statements (front ++ a :: behind) (tokensAt p pieces)) :
    ∃ before during after, pieces = before ++ (during ++ after) ∧
      Statements front (tokensAt p before) ∧
      Statement a (tokensAt (p.after (spell before [])) during) ∧
      Statements behind (tokensAt (p.after (spell (before ++ during) [])) after) := by
  obtain ⟨ts, us, hts, hfront, hrest⟩ := h.split
  cases hrest with
  | @cons _ _ us vs ha hbehind =>
    obtain ⟨before, rest, rfl, rfl, hrest, -⟩ := tokensAt_split hts (ha.head_ne_assign vs)
    obtain ⟨during, after, rfl, rfl, rfl, -⟩ := tokensAt_split hrest hbehind.head_ne_assign
    refine ⟨before, during, after, rfl, hfront, ha, ?_⟩
    rwa [spell_append, Position.after_append]

/-- An assignment covers its pieces, the first gap apart. -/
theorem Derived.Statement.span_eq {p : Position} {piece : Piece} {more : List Piece}
    {a : Assignment} (h : Statement a (tokensAt p (piece :: more))) :
    a.span.start.offset = p.offset + piece.gap.size ∧ a.span.stop.offset =
      p.offset + piece.gap.size + (piece.lexeme.spelling ++ spell more []).size := by
  obtain ⟨first, last, hfirst, hlast, hstart, hstop, -⟩ := h.covers (pairwise_tokensAt p _)
  obtain ⟨hend, -⟩ := getLast?_tokensAt last hlast
  rw [tokensAt_cons] at hfirst
  obtain rfl := Option.some.inj hfirst
  rw [hstart, hstop, hend, spell]
  simp [Nat.add_assoc]

theorem tokensAt_offset {p q : Position} {n : Nat} (h : q.offset = p.offset + n)
    (pieces : List Piece) : (tokensAt p pieces).map (Token.relocate (.offset n)) =
      (tokensAt q pieces).map (Token.relocate (.offset 0)) := by
  apply tokensAt_relocate
  intro s
  simp only [Relocation.offset, Position.offset_after, h, Position.mk.injEq, and_self, and_true]
  omega

/-- From the same pieces elsewhere the same assignments are read, moved. -/
theorem read_moved {p q : Position} {n : Nat} (h : q.offset = p.offset + n) {pieces : List Piece}
    (hclean : ∀ piece ∈ pieces, piece.isClean = true) {as : List Assignment}
    (has : Statements as (tokensAt q pieces)) :
    StartsStatement (tokensAt p pieces) ∧ faults (tokensAt p pieces) = 0 ∧
      (readStatements (tokensAt p pieces)).map (Assignment.relocate (.offset n)) =
        as.map (Assignment.relocate (.offset 0)) := by
  have hmoved := tokensAt_offset h pieces
  refine ⟨?_, ?_, ?_⟩
  · rw [← startsStatement_relocate (f := .offset n), hmoved, startsStatement_relocate]
    exact startsStatement_of_clean hclean has
  · rw [← faults_relocate (.offset n), hmoved, faults_relocate, has.read.2]
  · rw [← readStatements_relocate, hmoved, readStatements_relocate, has.read.1]

/-- The text is `u`, the statement `x` of the assignment `a`, and `v`. Without `x` it parses
without a report too, and the assignments behind move up. -/
structure Cut (text : Text) (front : List Assignment) (a : Assignment)
    (behind : List Assignment) (u x v : Text) (moved : List Assignment) : Prop where
  text_eq : text = u ++ (x ++ v)
  start : a.span.start.offset = u.size
  stop : a.span.stop.offset = u.size + x.size
  body : x ≠ []
  quiet : (File.parse (u ++ v)).reports = []
  assignments : (File.parse (u ++ v)).file.assignments = front ++ moved
  moved : moved.map (Assignment.relocate (.offset x.size)) =
    behind.map (Assignment.relocate (.offset 0))
  behind : ∀ b ∈ behind, a.span.stop.offset ≤ b.span.start.offset

theorem exists_cut {text : Text} {front behind : List Assignment} {a : Assignment}
    (hquiet : (File.parse text).reports = [])
    (has : (File.parse text).file.assignments = front ++ a :: behind) :
    ∃ u x v moved, Cut text front a behind u x v moved := by
  obtain ⟨pieces, closing, rfl, hlaid⟩ := exists_laid text
  obtain ⟨hreports, hfaults⟩ := (File.reports_parse_eq_nil_iff _).1 hquiet
  obtain ⟨hclean, hclosing⟩ := hlaid.reports_eq_nil_iff.1 hreports
  obtain ⟨as, hstatements⟩ := faults_eq_zero_iff.1 hfaults
  rw [(File.read_parse _).1, hstatements.read.1] at has
  subst has
  rw [TokenStream.tokens_laid hlaid] at hstatements
  obtain ⟨before, during, after, rfl, hfront, ha, hbehind⟩ := exists_pieces hstatements
  obtain ⟨gap, unknown, name, more, rfl⟩ := ha.exists_word
  obtain rfl : unknown = false :=
    Piece.unknown_of_isClean (hclean ⟨gap, unknown, .word name⟩ (by simp))
  obtain ⟨hgap, hname, -⟩ := hlaid.drop
  have hafter : Laid after closing := Laid.drop hlaid.drop
  have hassign : assignNext after = false := assignNext_of_head hbehind.head_ne_assign
  obtain ⟨pieces, closing', hspell, hlaid', htokens, hclean'⟩ :=
    hlaid.append hgap hafter hassign (by simp)
      (hlaid.fits_seam rfl hfront.last_ne_operator hafter hbehind.exists_word)
  have hoffset :
      (Position.after {} (spell (before ++ ⟨gap, false, .word name⟩ :: more) [])).offset =
      (Position.after {} (spell before gap)).offset + (name ++ spell more []).size := by
    rw [spell_append, spell_split before gap, spell]
    simp only [Lexeme.spelling, Position.offset_after, Text.size_append]
    omega
  obtain ⟨hstarts, hfaults', hmoved⟩ :=
    read_moved hoffset (fun piece hpiece => hclean piece (by simp [hpiece])) hbehind
  obtain ⟨hread, hcount⟩ := read_append (tokensAt {} before) hstarts
  rw [← htokens {}, ← TokenStream.tokens_laid hlaid', hspell] at hread hcount
  obtain ⟨hstart, hstop⟩ : a.span.start.offset = (spell before gap).size ∧
      a.span.stop.offset = (spell before gap).size + (name ++ spell more []).size := by
    have hspan := ha.span_eq
    rwa [Position.offset_after, Nat.zero_add, ← Text.size_append, ← spell_split] at hspan
  refine ⟨spell before gap, name ++ spell more [], spell after closing,
    readStatements (tokensAt (Position.after {} (spell before gap)) after),
    ?_, hstart, hstop, ?_, ?_, ?_, hmoved, ?_⟩
  · rw [spell_append, List.cons_append, spell, spell_append, spell_split before gap]
    simp [Lexeme.spelling]
  · exact fun hnil => Lexeme.spelling_ne_nil_of_fits hname (List.append_eq_nil_iff.1 hnil).1
  · rw [File.reports_parse_eq_nil_iff, hcount, hfaults', hfront.read.2, ← hspell,
      hlaid'.reports_eq_nil_iff]
    refine ⟨hclean' rfl (fun piece hpiece => hclean piece (by simp [hpiece])) ⟨?_, hclosing⟩, rfl⟩
    exact fun piece hpiece => hclean piece (by simp [hpiece])
  · rw [(File.read_parse _).1, hread, hfront.read.1]
  · intro b hb
    have hle := hbehind.offset_le b hb
    rwa [hoffset, Position.offset_after, Nat.zero_add, ← hstop] at hle

end AssignLang
