import AssignLang.Text.Edit
import AssignLang.Proofs.Cut
import AssignLang.Proofs.Parse.Context

/-! Deleting a row of tokens that starts with a name. The gap before them joins the one
behind them, and the other tokens are what they were, unless the characters on the two
sides run together. Only a name that an assignment sign then follows becomes a target. -/

namespace AssignLang

/-- Next to each other the characters mean something else than apart: they start a comment,
are an assignment sign or belong to one number. -/
def Text.runsTogether (c d : Char) : Bool :=
  (c = '/' && d = '/') || (c = ':' && d = '=') || (c.isDigit && d.isDigit)

/-- Without the span, the characters on its two sides do not run together. -/
def Text.Seals (text : Text) (span : Span) : Prop :=
  ∀ c ∈ (text.splitAt? span.start.offset).bind (·.1.getLast?),
    ∀ d ∈ (text.splitAt? span.stop.offset).bind (·.2.head?), Text.runsTogether c d = false

/-- Without the span, the token is a name that an assignment sign comes next to. -/
def Token.leadsWithout (text : Text) (span : Span) (t : Token) : Bool :=
  t.target?.isSome && ((text.replace? span.start.offset span.stop.offset []).bind
    (·.splitAt? t.span.stop.offset)).any (·.2.startsAssign)

-- The instance looks at the two characters only, and not at all characters there are.
instance (text : Text) (span : Span) : Decidable (text.Seals span) :=
  @Option.decidableForallMem _ _ (fun _ => Option.decidableForallMem _) _

theorem Text.Seals.chars {u x v : Text} {span : Span} (h : Text.Seals (u ++ (x ++ v)) span)
    (hstart : span.start.offset = u.size) (hstop : span.stop.offset = u.size + x.size) :
    ∀ c ∈ u.getLast?, ∀ d ∈ v.head?, Text.runsTogether c d = false := by
  have hfront : Text.splitAt? (u ++ (x ++ v)) span.start.offset = some (u, x ++ v) :=
    Text.splitAt?_eq_some_iff.2 ⟨rfl, hstart.symm⟩
  have hbehind : Text.splitAt? (u ++ (x ++ v)) span.stop.offset = some (u ++ x, v) :=
    Text.splitAt?_eq_some_iff.2 ⟨by simp, by rw [hstop, Text.size_append]⟩
  rw [Text.Seals, hfront, hbehind] at h
  exact h

theorem Lexeme.Fits.of_apart {lexeme : Lexeme} {c : Char} {next : Option Char}
    (h : lexeme.Fits (some c)) (hc : Identifier.isStart c = true)
    (hapart : ∀ b ∈ lexeme.spelling.getLast?, ∀ d ∈ next, Text.runsTogether b d = false) :
    lexeme.Fits next := by
  cases lexeme with
  | operator op =>
    rintro rfl hslash
    have := hapart '/' rfl '/' hslash
    simp [Text.runsTogether] at this
  | number digits =>
    obtain ⟨hne, hdigits, -⟩ := h
    refine ⟨hne, hdigits, fun d hd => ?_⟩
    obtain ⟨b, hb⟩ := Option.isSome_iff_exists.1 (List.getLast?_isSome.2 hne)
    have hlast := hapart b hb d hd
    simp only [Text.runsTogether, Bool.or_eq_false_iff, hdigits b (List.mem_of_getLast? hb),
      Bool.true_and] at hlast
    exact hlast.2
  | word name =>
    have hpart := h.2 c rfl
    rw [Identifier.isPart_iff.2 (.inl hc)] at hpart
    simp at hpart
  | quoted value closed =>
    refine ⟨h.1, fun hopen => ?_⟩
    have := h.2 hopen
    simp at this
  | assign => trivial

theorem getLast?_spell {pieces : List Piece} {last : Piece} (h : pieces.getLast? = some last)
    (hne : last.lexeme.spelling ≠ []) :
    (spell pieces []).getLast? = last.lexeme.spelling.getLast? := by
  obtain ⟨init, rfl⟩ := List.getLast?_eq_some_iff.1 h
  obtain ⟨c, hc⟩ := Option.isSome_iff_exists.1 (List.getLast?_isSome.2 hne)
  rw [spell_append, spell, spell, List.append_nil, List.getLast?_append, List.getLast?_append, hc]
  rfl

theorem tokensAt_drop {p : Position} {pieces : List Piece} {ts us : List Token}
    (h : tokensAt p pieces = ts ++ us) :
    ∃ front behind, pieces = front ++ behind ∧ front.length = ts.length ∧
      tokensAt (p.after (spell front [])) behind = us ∧
      ∀ t ∈ ts.getLast?, t.span.stop = p.after (spell front []) := by
  induction ts generalizing p pieces with
  | nil => exact ⟨[], pieces, rfl, rfl, h, by simp⟩
  | cons t ts ih =>
    cases pieces with
    | nil => simp at h
    | cons piece more =>
      rw [tokensAt_cons, List.cons_append] at h
      obtain ⟨rfl, hmore⟩ := List.cons.inj h
      obtain ⟨front, behind, rfl, hlength, hbehind, hlast⟩ := ih hmore
      have hspell : p.after (spell (piece :: front) []) =
          ((p.after piece.gap).after piece.lexeme.spelling).after (spell front []) := by
        simp [spell]
      refine ⟨piece :: front, behind, rfl, by simp [hlength], by rw [hspell, hbehind], ?_⟩
      intro t ht
      rw [hspell]
      cases ts with
      | nil =>
        obtain rfl := List.length_eq_zero_iff.1 hlength
        obtain rfl := Option.some.inj ht
        rfl
      | cons u ts => exact hlast t (by rwa [List.getLast?_cons_of_ne_nil (by simp)] at ht)

theorem head?_of_assignNext (p : Position) {pieces : List Piece} (h : assignNext pieces = true) :
    (tokensAt p pieces).head?.map Token.terminal = some .assign := by
  cases pieces with
  | nil => simp [assignNext] at h
  | cons piece more =>
    obtain ⟨gap, unknown, lexeme⟩ := piece
    simp only [assignNext, List.head?_cons, Option.any_some, Bool.and_eq_true,
      decide_eq_true_eq] at h
    obtain ⟨-, rfl⟩ := h
    rfl

open Recovered (Led) in
/-- Tokens of a part depend on the rest only if the part ends with a word and the rest starts
with an assignment sign: then the word is a target. -/
theorem exists_led (p : Position) (pieces more : List Piece) :
    ∃ ts', Led (tokensAt (p.after (spell pieces [])) more) (tokensAt p pieces) ts' ∧
      (assignNext more = false → ts' = tokensAt p pieces) ∧
      tokensAt p (pieces ++ more) = ts' ++ tokensAt (p.after (spell pieces [])) more := by
  cases hnext : assignNext more with
  | false => exact ⟨_, .inl rfl, fun _ => rfl, tokensAt_append p pieces hnext⟩
  | true =>
    simp only [reduceCtorEq, false_implies, true_and]
    induction pieces generalizing p with
    | nil => exact ⟨[], .inl rfl, rfl⟩
    | cons piece pieces ih =>
      cases pieces with
      | nil =>
        obtain ⟨gap, unknown, lexeme⟩ := piece
        cases lexeme with
        | word name =>
          have hassign :=
            head?_of_assignNext (p.after (spell [⟨gap, unknown, .word name⟩] [])) hnext
          refine ⟨_, .inr ⟨hassign, [], String.ofList name, _, rfl, rfl⟩, ?_⟩
          simp [spell, Lexeme.terminalBefore, hnext]
        | _ => exact ⟨_, .inl rfl, by simp [spell, Lexeme.terminalBefore]⟩
      | cons next pieces =>
        have hspell : p.after (spell (piece :: next :: pieces) []) =
            ((p.after piece.gap).after piece.lexeme.spelling).after
              (spell (next :: pieces) []) := by
          simp [spell]
        obtain ⟨ts', hled, heq⟩ := ih ((p.after piece.gap).after piece.lexeme.spelling)
        rw [hspell]
        refine ⟨_, hled.cons _, ?_⟩
        rw [List.cons_append, tokensAt_cons, heq]
        rfl

theorem Laid.fits_apart {before after during : List Piece} {gap name closing : Text}
    {unknown : Bool}
    (h : Laid (before ++ (⟨gap, unknown, .word name⟩ :: (during ++ after))) closing)
    (hapart : ∀ c ∈ (spell before gap).getLast?, ∀ d ∈ (spell after closing).head?,
      Text.runsTogether c d = false) :
    ∀ last ∈ before.getLast?, last.lexeme.Fits (gap ++ spell after closing).head? := by
  intro last hlast
  have hfits := h.fits_getLast last hlast
  rw [spell] at hfits
  cases gap with
  | cons c g => exact hfits
  | nil =>
    obtain ⟨-, hname, -⟩ := h.drop
    obtain ⟨c, cs, rfl, hc⟩ := exists_start_of_fits hname
    have hne : last.lexeme.spelling ≠ [] := Lexeme.spelling_ne_nil_of_fits hfits
    rw [getLast?_spell hlast hne] at hapart
    exact Lexeme.Fits.of_apart (c := c) hfits hc hapart

theorem Laid.delete {before after during : List Piece} {gap name closing : Text} {unknown : Bool}
    (h : Laid (before ++ (⟨gap, unknown, .word name⟩ :: (during ++ after))) closing)
    (hapart : ∀ c ∈ (spell before gap).getLast?, ∀ d ∈ (spell after closing).head?,
      Text.runsTogether c d = false) :
    ∃ other closing', spell other closing' = gap ++ spell after closing ∧
      Laid other closing' ∧ Laid (before ++ other) closing' ∧
      ∀ p, tokensAt p other = tokensAt (p.after gap) after := by
  obtain ⟨hgap, -, hmore⟩ := h.drop
  have hcolon : unknown = true → gap.getLast? = some ':' →
      (spell after closing).head? ≠ some '=' := by
    intro _ hlast heq
    have := hapart ':' (by rw [spell_split, List.getLast?_append, hlast]; rfl) '=' heq
    simp [Text.runsTogether] at this
  obtain ⟨other, closing', hspell, hother, htokens, -⟩ := hmore.drop.pad hgap hcolon
  exact ⟨other, closing', hspell, hother, h.replace hother (hspell ▸ h.fits_apart hapart), htokens⟩

theorem exists_row {pieces : List Piece} {ts us ws : List Token} {first : Token} {ident : Ident}
    {span : Span} (h : tokensAt {} pieces = ts ++ (us ++ ws)) (hover : span.Over us)
    (hfirst : us.head? = some first) (hname : first.target? = some ident) :
    ∃ before gap unknown name during after,
      pieces = before ++ (⟨gap, unknown, .word name⟩ :: (during ++ after)) ∧
      tokensAt {} before = ts ∧
      tokensAt (Position.after {} (spell (before ++ ⟨gap, unknown, .word name⟩ :: during) []))
        after = ws ∧
      span.start.offset = (spell before gap).size ∧
      span.stop.offset = (spell before gap).size + (name ++ spell during []).size := by
  have hhead : (us ++ ws).head? = some first := by rw [List.head?_append, hfirst]; rfl
  have hnot : ∀ t ∈ (us ++ ws).head?, t.kind ≠ .assign := by
    intro t ht hkind
    obtain rfl := Option.some.inj (hhead.symm.trans ht)
    obtain ⟨terminal, span⟩ := first
    cases terminal <;> simp_all [Token.kind, Terminal.kind, Token.target?]
  obtain ⟨before, rest, rfl, hbefore, hrest, -⟩ := tokensAt_split h hnot
  obtain ⟨gap, unknown, name, more, rfl⟩ := exists_word_of_target? (hrest ▸ hhead) hname
  obtain ⟨front, after, hfront, hlength, hafter, hstop⟩ := tokensAt_drop hrest
  cases front with
  | nil =>
    rw [List.length_eq_zero_iff.1 hlength.symm] at hfirst
    simp at hfirst
  | cons piece during =>
    obtain ⟨rfl, rfl⟩ := List.cons.inj hfront
    obtain ⟨first', last, hfirst', hlast, hstart, hend⟩ := hover
    obtain rfl := Option.some.inj (hfirst.symm.trans hfirst')
    refine ⟨before, gap, unknown, name, during, after, rfl, hbefore, ?_, ?_, ?_⟩
    · rwa [spell_append, Position.after_append]
    · rw [tokensAt_cons] at hrest
      rw [← hrest] at hhead
      obtain rfl := Option.some.inj hhead
      rw [hstart, spell_split before gap]
      simp
    · rw [hend, hstop last hlast, spell, spell_split before gap]
      simp [Lexeme.spelling, Nat.add_assoc]

theorem assignNext_of_leadsWithout {before other : List Piece} {u x v closing : Text}
    {span : Span} {last : Token} (hlaid : Laid other closing)
    (hspell : spell (before ++ other) closing = u ++ v) (hstart : span.start.offset = u.size)
    (hstop : span.stop.offset = u.size + x.size) (hlast : last ∈ (tokensAt {} before).getLast?)
    (hname : last.target? ≠ none) (h : last.leadsWithout (u ++ (x ++ v)) span = false) :
    assignNext other = false := by
  have hreplace := Text.replace?_append u x v []
  have hsplit : Text.splitAt? (u ++ v) last.span.stop.offset =
      some (spell before [], spell other closing) := by
    refine Text.splitAt?_eq_some_iff.2 ⟨?_, ?_⟩
    · rw [← hspell, spell_append]
    · rw [(getLast?_tokensAt last hlast).1]
      simp
  rw [List.append_nil] at hreplace
  rw [Token.leadsWithout, hstart, hstop, hreplace, Option.bind_some, hsplit,
    Option.isSome_iff_ne_none.2 hname] at h
  rw [← startsAssign_spell hlaid]
  exact h

/-- Tokens from a name on can be deleted, if nothing runs together. If then an assignment sign
comes behind a name, this becomes a target. -/
theorem exists_deleted {text : Text} {ts us ws : List Token} {first : Token} {ident : Ident}
    {span : Span} (h : (TokenStream.ofText text).tokens = ts ++ (us ++ ws)) (hover : span.Over us)
    (hfirst : us.head? = some first) (hname : first.target? = some ident)
    (hseals : text.Seals span) :
    ∃ u x v ts', text = u ++ (x ++ v) ∧ span.start.offset = u.size ∧
      span.stop.offset = u.size + x.size ∧ Recovered.Led ws ts ts' ∧
      (∀ last ∈ ts.getLast?, last.leadsWithout text span = false → ts' = ts) ∧
      (TokenStream.ofText (u ++ v)).tokens.map (Token.relocate .forget) =
        (ts' ++ ws).map (Token.relocate .forget) := by
  obtain ⟨pieces, closing, rfl, hlaid⟩ := exists_laid text
  rw [TokenStream.tokens_laid hlaid] at h
  obtain ⟨before, gap, unknown, name, during, after, rfl, rfl, hafter, hstart, hstop⟩ :=
    exists_row h hover hfirst hname
  have htext : spell (before ++ ⟨gap, unknown, .word name⟩ :: (during ++ after)) closing =
      spell before gap ++ ((name ++ spell during []) ++ spell after closing) := by
    rw [spell_append, spell_split before gap, spell, spell_append]
    simp [Lexeme.spelling]
  rw [htext] at hseals ⊢
  have hapart := hseals.chars hstart hstop
  obtain ⟨other, closing', hother, hrest, hedited, htokens⟩ := hlaid.delete hapart
  have hspell : spell (before ++ other) closing' = spell before gap ++ spell after closing := by
    rw [spell_append, hother, spell_split before gap, List.append_assoc]
  obtain ⟨ts', hled, hsame, hjoined⟩ := exists_led {} before other
  refine ⟨spell before gap, name ++ spell during [], spell after closing, ts', rfl, hstart, hstop,
    hled.of_head ?_, fun last hlast hleads => ?_, ?_⟩
  · rw [htokens, ← hafter]
    cases after <;> rfl
  · by_cases hnone : last.target? = none
    · refine hled.eq_of_not_name fun _ _ _ last' hlast' => ?_
      rwa [← Option.some.inj (hlast.symm.trans hlast')]
    · exact hsame (assignNext_of_leadsWithout hrest hspell hstart hstop hlast hnone hleads)
  · have hbehind : (tokensAt (Position.after {} (spell before [])) other).map
        (Token.relocate .forget) = ws.map (Token.relocate .forget) := by
      rw [htokens, ← hafter]
      exact tokensAt_relocate after fun _ => rfl
    rw [← hspell, TokenStream.tokens_laid hedited, hjoined, List.map_append, List.map_append,
      hbehind]

end AssignLang
