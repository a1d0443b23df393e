import AssignLang.Proofs.Token.Layout

/-! Spans in a row. What is gathered over a row of spans runs from the start of the first
to the end of the last. The tokens of a text are such a row: each has an extent of its
own, and each ends before the next one starts. -/

namespace AssignLang

namespace Span

/-- The span over a row of spans, gathered from left to right. -/
def cover (spans : List Span) : Option Span := spans.foldl (fun run s => some (join run s)) none

/-- Neither end of `s` lies behind the same end of `t`. -/
def Precedes (s t : Span) : Prop :=
  s.start.offset ≤ t.start.offset ∧ s.stop.offset ≤ t.stop.offset

/-- The span `s` lies in `t`, and it runs forwards. -/
structure Inside (s t : Span) : Prop where
  start : t.start.offset ≤ s.start.offset
  forwards : s.start.offset ≤ s.stop.offset
  stop : s.stop.offset ≤ t.stop.offset

theorem merge_of_precedes {s t : Span} (h : s.Precedes t) : s.merge t = ⟨s.start, t.stop⟩ := by
  obtain ⟨hstart, hstop⟩ := h
  rw [merge, Position.earlier, Position.later, if_neg (by omega), if_neg (by omega)]

theorem foldl_join {s : Span} {spans : List Span} (h : (s :: spans).Pairwise Precedes) :
    spans.foldl (fun run s => some (join run s)) (some s) =
      some ⟨s.start, (spans.getLastD s).stop⟩ := by
  induction spans generalizing s with
  | nil => rfl
  | cons t spans ih =>
    obtain ⟨hs, hspans⟩ := List.pairwise_cons.1 h
    obtain ⟨ht, hmore⟩ := List.pairwise_cons.1 hspans
    have hmerged : (⟨s.start, t.stop⟩ :: spans : List Span).Pairwise Precedes :=
      List.pairwise_cons.2 ⟨fun r hr => ⟨(hs r (List.mem_cons_of_mem t hr)).1, (ht r hr).2⟩, hmore⟩
    rw [List.foldl_cons, join, merge_of_precedes (hs t List.mem_cons_self), ih hmerged]
    cases spans <;> rfl

theorem cover_cons {s : Span} {spans : List Span} (h : (s :: spans).Pairwise Precedes) :
    cover (s :: spans) = some ⟨s.start, (spans.getLastD s).stop⟩ := foldl_join h

end Span

/-- Tokens one behind the other, from the offset `lo` on and up to `hi`. -/
def Row : Nat → List Token → Nat → Prop
  | lo, [], hi => lo ≤ hi
  | lo, t :: ts, hi => lo ≤ t.span.start.offset ∧ t.span.start.offset < t.span.stop.offset ∧
      Row t.span.stop.offset ts hi

namespace Row

variable {lo mid hi : Nat} {ts us : List Token} {t : Token}

theorem le (h : Row lo ts hi) : lo ≤ hi := by
  induction ts generalizing lo with
  | nil => exact h
  | cons t ts ih =>
    obtain ⟨hlo, hlt, hrow⟩ := h
    have := ih hrow
    omega

theorem append_iff : Row lo (ts ++ us) hi ↔ ∃ mid, Row lo ts mid ∧ Row mid us hi := by
  induction ts generalizing lo with
  | nil =>
    constructor
    · exact fun h => ⟨lo, Nat.le_refl lo, h⟩
    · rintro ⟨mid, hlo, hrow⟩
      cases us with
      | nil => exact Nat.le_trans hlo hrow
      | cons u us => exact ⟨Nat.le_trans hlo hrow.1, hrow.2⟩
  | cons t ts ih =>
    rw [List.cons_append, Row, ih]
    constructor
    · rintro ⟨hlo, hlt, mid, hts, hus⟩
      exact ⟨mid, ⟨hlo, hlt, hts⟩, hus⟩
    · rintro ⟨mid, ⟨hlo, hlt, hts⟩, hus⟩
      exact ⟨hlo, hlt, mid, hts, hus⟩

theorem mem (h : Row lo ts hi) (ht : t ∈ ts) :
    lo ≤ t.span.start.offset ∧ t.span.start.offset < t.span.stop.offset ∧
      t.span.stop.offset ≤ hi := by
  induction ts generalizing lo with
  | nil => simp at ht
  | cons u ts ih =>
    obtain ⟨hlo, hlt, hrow⟩ := h
    rcases List.mem_cons.1 ht with rfl | ht
    · exact ⟨hlo, hlt, hrow.le⟩
    · have := ih hrow ht
      omega

theorem pairwise (h : Row lo ts hi) :
    ts.Pairwise fun t u => t.span.stop.offset ≤ u.span.start.offset := by
  induction ts generalizing lo with
  | nil => exact List.Pairwise.nil
  | cons t ts ih =>
    obtain ⟨-, -, hrow⟩ := h
    exact List.pairwise_cons.2 ⟨fun u hu => (hrow.mem hu).1, ih hrow⟩

theorem pairwise_precedes (h : Row lo ts hi) : (ts.map Token.span).Pairwise Span.Precedes := by
  rw [List.pairwise_map]
  refine h.pairwise.imp_of_mem fun {t u} ht hu hle => ?_
  have htm := h.mem ht
  have hum := h.mem hu
  constructor <;> omega

theorem cover (h : Row lo ts hi) {s : Span} (hs : Span.cover (ts.map Token.span) = some s) :
    ∃ first last, ts.head? = some first ∧ ts.getLast? = some last ∧ s.start = first.span.start ∧
      s.stop = last.span.stop := by
  cases ts with
  | nil => simp [Span.cover] at hs
  | cons t ts =>
    have hcover := Span.cover_cons (List.map_cons ▸ h.pairwise_precedes)
    rw [List.map_cons, hcover] at hs
    obtain rfl := Option.some.inj hs
    refine ⟨t, ts.getLast?.getD t, rfl, List.getLast?_cons, rfl, ?_⟩
    rw [List.getLastD_eq_getLast?, List.getLast?_map]
    cases ts.getLast? <;> rfl

end Row

theorem Laid.row {pieces : List Piece} {closing : Text} (h : Laid pieces closing) (p : Position) :
    Row p.offset (tokensAt p pieces) (p.after (spell pieces closing)).offset := by
  induction pieces generalizing p with
  | nil =>
    rw [Position.offset_after]
    exact Nat.le_add_right _ _
  | cons piece more ih =>
    obtain ⟨-, hfits, hmore⟩ := h
    have hpos : 0 < piece.lexeme.spelling.size :=
      Nat.pos_of_ne_zero fun h => Lexeme.spelling_ne_nil_of_fits hfits (Text.size_eq_zero.1 h)
    rw [tokensAt_cons, spell, Position.after_append, Position.after_append]
    refine ⟨by simp, by simpa using hpos, ih hmore _⟩

theorem TokenStream.row (text : Text) : Row 0 (ofText text).tokens text.size := by
  obtain ⟨pieces, closing, rfl, hlaid⟩ := exists_laid text
  have hrow := hlaid.row {}
  rwa [Position.offset_after, Nat.zero_add, ← tokens_laid hlaid] at hrow

end AssignLang
