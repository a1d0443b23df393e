import AssignLang.Proofs.Parse.Renaming
import AssignLang.Proofs.Positions
import AssignLang.Proofs.QuickFix

/-! Exchanging one word for another. Words never touch each other, and a word can stand
wherever another one stands. So the tokens of the text with one word exchanged are those of
the text with that token renamed, and those behind it moved by the difference in length. -/

namespace AssignLang

namespace Relocation

/-- Keeps only the offsets, moved by a monotone function. -/
def ofMonotone (g : Nat → Nat) (h : ∀ m n, m ≤ n → g m ≤ g n) : Relocation where
  move p := ⟨g p.offset, 0, 0⟩
  move_earlier p q := by
    simp only [Position.earlier]
    rcases Nat.lt_or_ge q.offset p.offset with hlt | hge
    · have := h _ _ (Nat.le_of_lt hlt)
      rw [if_pos hlt]
      split
      · rfl
      · rw [show g q.offset = g p.offset by omega]
    · have := h _ _ hge
      rw [if_neg (by omega), if_neg (by omega)]
  move_later p q := by
    simp only [Position.later]
    rcases Nat.lt_or_ge q.offset p.offset with hlt | hge
    · have := h _ _ (Nat.le_of_lt hlt)
      rw [if_pos hlt]
      split
      · rfl
      · rw [show g q.offset = g p.offset by omega]
    · have := h _ _ hge
      rw [if_neg (by omega), if_neg (by omega)]

/-- The offset that stands for `offset` when the span gets `size` bytes. Nothing is asked of
offsets inside the span. -/
def resized (span : Span) (size offset : Nat) : Nat :=
  if offset ≤ span.start.offset then offset
  else max span.start.offset (offset - span.length) + size

/-- Keeps only the offsets, moved as the span gets `size` bytes. -/
def resize (span : Span) (size : Nat) : Relocation :=
  ofMonotone (resized span size) fun m n h => by
    unfold resized
    split
    · split <;> omega
    · rw [if_neg (by omega)]
      omega

theorem resized_before {span : Span} {size offset : Nat} (h : offset ≤ span.start.offset) :
    resized span size offset = offset := if_pos h

theorem resized_behind {span : Span} (size n : Nat) (hlt : span.start.offset < span.stop.offset) :
    resized span size (span.stop.offset + n) = span.start.offset + size + n := by
  have hlength : span.length = span.stop.offset - span.start.offset := rfl
  rw [resized, if_neg (by omega), hlength]
  omega

end Relocation

theorem Span.relocate_resize {s : Span} (size : Nat) (hlt : s.start.offset < s.stop.offset) :
    s.relocate (.resize s size) = ⟨⟨s.start.offset, 0, 0⟩, ⟨s.start.offset + size, 0, 0⟩⟩ := by
  have hstop := Relocation.resized_behind size 0 hlt
  rw [Nat.add_zero, Nat.add_zero] at hstop
  simp only [Span.relocate, Relocation.resize, Relocation.ofMonotone, hstop,
    Relocation.resized_before (Nat.le_refl _)]

theorem exists_piece {p : Position} {pieces : List Piece} {t : Token}
    (h : t ∈ tokensAt p pieces) : ∃ before piece after, pieces = before ++ piece :: after ∧
      t = ⟨piece.lexeme.terminalBefore (assignNext after), ⟨p.after (spell before piece.gap),
        (p.after (spell before piece.gap)).after piece.lexeme.spelling⟩⟩ := by
  induction pieces generalizing p with
  | nil => simp at h
  | cons piece more ih =>
    rw [tokensAt_cons] at h
    rcases List.mem_cons.1 h with rfl | h
    · exact ⟨[], piece, more, rfl, rfl⟩
    · obtain ⟨before, piece', after, rfl, rfl⟩ := ih h
      exact ⟨piece :: before, piece', after, rfl, by simp [spell]⟩

theorem Lexeme.Fits.of_start {lexeme : Lexeme} {c d : Char} (h : lexeme.Fits (some c))
    (hc : Identifier.isStart c = true) (hd : Identifier.isStart d = true) :
    lexeme.Fits (some d) := by
  have hdigit : d.isDigit = false := by
    rw [Bool.eq_false_iff]
    intro hdigit
    rw [Identifier.isStart_of_isDigit hdigit] at hd
    simp at hd
  cases lexeme with
  | operator op =>
    rintro - heq
    rw [Option.some.inj heq] at hd
    exact absurd hd (by decide)
  | _ => exact h.of_word hc (by simp) (by simpa using hdigit)

theorem head?_word {name : Text} (h : Identifier.isValid name = true) :
    ∃ c cs, name = c :: cs ∧ Identifier.isStart c = true := by
  cases name with
  | nil => simp [Identifier.isValid] at h
  | cons c cs =>
    rw [Identifier.isValid, Bool.and_eq_true] at h
    exact ⟨c, cs, rfl, h.1⟩

theorem Laid.exchange {before after : List Piece} {gap old new closing : Text} {u : Bool}
    (h : Laid (before ++ ⟨gap, u, .word old⟩ :: after) closing)
    (hnew : Identifier.isValid new = true) :
    Laid (before ++ ⟨gap, u, .word new⟩ :: after) closing := by
  obtain ⟨hgap, hold, hafter⟩ := h.drop
  refine h.replace ⟨hgap, ⟨hnew, hold.2⟩, hafter⟩ fun last hlast => ?_
  have hfits := h.fits_getLast last hlast
  obtain ⟨c, cs, rfl, hc⟩ := exists_start_of_fits hold
  obtain ⟨d, ds, rfl, hd⟩ := head?_word hnew
  cases gap with
  | nil => exact Lexeme.Fits.of_start hfits hc hd
  | cons b g => exact hfits

/-- In the text `edited` the word of the token `t` is exchanged for `name`. -/
structure Exchanged (text : Text) (t : Token) (name : String) (edited : Text) : Prop where
  parts : ∃ u x v, text = u ++ (x ++ v) ∧ edited = u ++ (name.toList ++ v) ∧
    t.span = ⟨Position.after {} u, Position.after {} (u ++ x)⟩
  terminals : ∃ i, (TokenStream.ofText text).tokens[i]? = some t ∧
    (TokenStream.ofText edited).tokens.map Token.terminal =
      ((TokenStream.ofText text).tokens.map Token.terminal).set i (.ident name)
  moved : (TokenStream.ofText edited).tokens.map (Token.relocate (.offset 0)) =
    ((TokenStream.ofText text).tokens.map (Token.rename t.span name)).map
      (Token.relocate (.resize t.span (Text.size name.toList)))

theorem Token.rename_of_ne {span : Span} {name : String} {t : Token} (h : t.span ≠ span) :
    t.rename span name = t := if_neg h

theorem tokensAt_word (p : Position) (before after : List Piece) (gap word : Text) (u : Bool)
    (hnext : assignNext after = false) :
    tokensAt p (before ++ ⟨gap, u, .word word⟩ :: after) = tokensAt p before ++
      ⟨.ident (String.ofList word), ⟨p.after (spell before gap),
        (p.after (spell before gap)).after word⟩⟩ ::
      tokensAt ((p.after (spell before gap)).after word) after := by
  rw [tokensAt_append p before (by simp [assignNext]), tokensAt_cons, hnext, spell_split before gap,
    Position.after_append]
  rfl

theorem map_rename_of_ne {span : Span} {name : String} {ts : List Token}
    (h : ∀ t ∈ ts, t.span ≠ span) : ts.map (Token.rename span name) = ts :=
  (List.map_congr_left fun t ht => Token.rename_of_ne (h t ht)).trans (List.map_id ts)

theorem Row.map_rename {lo hi : Nat} {A B : List Token} {t : Token} {name old : String}
    (h : Row lo (A ++ t :: B) hi) (ht : t.terminal = .ident old) :
    (A ++ t :: B).map (Token.rename t.span name) = A ++ ⟨.ident name, t.span⟩ :: B := by
  obtain ⟨mid, hA, hmid, hlt, hB⟩ := Row.append_iff.1 h
  have hbefore : ∀ s ∈ A, s.span ≠ t.span := by
    intro s hs heq
    have := hA.mem hs
    rw [heq] at this
    omega
  have hbehind : ∀ s ∈ B, s.span ≠ t.span := by
    intro s hs heq
    have := hB.mem hs
    rw [heq] at this
    omega
  rw [List.map_append, List.map_cons, map_rename_of_ne hbefore, map_rename_of_ne hbehind,
    Token.rename, if_pos rfl, ht]

theorem map_resize_before {span : Span} {size : Nat} {ts : List Token}
    (h : ∀ t ∈ ts, t.span.start.offset ≤ span.start.offset ∧
      t.span.stop.offset ≤ span.start.offset) :
    ts.map (Token.relocate (.resize span size)) = ts.map (Token.relocate (.offset 0)) := by
  refine List.map_congr_left fun t ht => ?_
  obtain ⟨hstart, hstop⟩ := h t ht
  simp only [Token.relocate, Span.relocate, Relocation.resize, Relocation.ofMonotone,
    Relocation.offset, Relocation.resized_before hstart, Relocation.resized_before hstop,
    Nat.add_zero]

theorem tokensAt_resize {q : Position} {word : Text} (hword : word ≠ []) (new : Text)
    (pieces : List Piece) :
    (tokensAt (q.after word) pieces).map (Token.relocate (.resize ⟨q, q.after word⟩ new.size)) =
      (tokensAt (q.after new) pieces).map (Token.relocate (.offset 0)) := by
  have hpos : 0 < word.size := Nat.pos_of_ne_zero fun h => hword (Text.size_eq_zero.1 h)
  apply tokensAt_relocate
  intro s
  have hlt : Position.offset (Span.start ⟨q, q.after word⟩) <
      Position.offset (Span.stop ⟨q, q.after word⟩) := by simpa using hpos
  have hresized := Relocation.resized_behind new.size s.size hlt
  simp only [Relocation.resize, Relocation.ofMonotone, Relocation.offset, Position.offset_after,
    Nat.add_zero] at hresized ⊢
  rw [hresized]

theorem terminals_tokensAt (p q : Position) (pieces : List Piece) :
    (tokensAt p pieces).map Token.terminal = (tokensAt q pieces).map Token.terminal := by
  induction pieces generalizing p q with
  | nil => rfl
  | cons piece more ih =>
    rw [tokensAt_cons, tokensAt_cons, List.map_cons, List.map_cons, ih]

/-- A word that is no target can be exchanged for another one. -/
theorem Laid.exchanged {before after : List Piece} {gap word closing : Text} {u : Bool}
    {name : String} (h : Laid (before ++ ⟨gap, u, .word word⟩ :: after) closing)
    (hnext : assignNext after = false) (hname : Identifier.isValid name.toList = true) :
    Exchanged (spell (before ++ ⟨gap, u, .word word⟩ :: after) closing)
      ⟨.ident (String.ofList word), ⟨Position.after {} (spell before gap),
        (Position.after {} (spell before gap)).after word⟩⟩ name
      (spell (before ++ ⟨gap, u, .word name.toList⟩ :: after) closing) := by
  have hspell : ∀ w, spell (before ++ ⟨gap, u, .word w⟩ :: after) closing =
      spell before gap ++ (w ++ spell after closing) := by
    intro w
    rw [spell_append, spell_split before gap, spell]
    simp [Lexeme.spelling]
  have hword : word ≠ [] := Lexeme.spelling_ne_nil_of_fits h.drop.2.1
  have hrow := TokenStream.row (spell (before ++ ⟨gap, u, .word word⟩ :: after) closing)
  have htokens := TokenStream.tokens_laid h
  have htokens' := TokenStream.tokens_laid (h.exchange hname)
  rw [tokensAt_word _ _ _ _ _ _ hnext] at htokens htokens'
  rw [String.ofList_toList] at htokens'
  rw [htokens] at hrow
  refine ⟨⟨spell before gap, word, spell after closing, hspell word, hspell name.toList,
    by simp⟩, ⟨before.length, ?_, ?_⟩, ?_⟩
  · rw [htokens, ← length_tokensAt {} before]
    simp
  · have hafter := terminals_tokensAt ((Position.after {} (spell before gap)).after name.toList)
      ((Position.after {} (spell before gap)).after word) after
    rw [htokens, htokens', List.map_append, List.map_append, List.map_cons, List.map_cons, hafter,
      ← length_tokensAt {} before]
    simp
  · obtain ⟨mid, hA, hmid, hlt, -⟩ := Row.append_iff.1 hrow
    change mid ≤ (Position.after {} (spell before gap)).offset at hmid
    have hbefore : ∀ t ∈ tokensAt {} before,
        t.span.start.offset ≤ (Position.after {} (spell before gap)).offset ∧
          t.span.stop.offset ≤ (Position.after {} (spell before gap)).offset := by
      intro t ht
      have hmem := hA.mem ht
      exact ⟨by omega, by omega⟩
    rw [htokens, htokens', hrow.map_rename rfl, List.map_append, List.map_append, List.map_cons,
      List.map_cons, tokensAt_resize hword, map_resize_before hbefore, Token.relocate,
      Token.relocate, Span.relocate_resize _ hlt]
    simp [Span.relocate, Relocation.offset]

theorem exists_exchanged {text : Text} {t : Token} {old name : String}
    (ht : t ∈ (TokenStream.ofText text).tokens) (hold : t.terminal = .ident old)
    (hname : Identifier.isValid name.toList = true) : ∃ edited, Exchanged text t name edited := by
  obtain ⟨pieces, closing, rfl, hlaid⟩ := exists_laid text
  rw [TokenStream.tokens_laid hlaid] at ht
  obtain ⟨before, ⟨gap, u, lexeme⟩, after, rfl, rfl⟩ := exists_piece ht
  obtain ⟨word, rfl, hnext⟩ : ∃ word, lexeme = .word word ∧ assignNext after = false := by
    cases lexeme with
    | word word =>
      refine ⟨word, rfl, ?_⟩
      cases hnext : assignNext after with
      | false => rfl
      | true => simp [Lexeme.terminalBefore, hnext] at hold
    | _ => simp [Lexeme.terminalBefore] at hold
  rw [hnext]
  exact ⟨_, hlaid.exchanged hnext hname⟩

end AssignLang
